import SeamLint.Text.Basic
import SeamLint.Text.Blank

set_option autoImplicit false

/-! # Text with markup

A line of output is written with tags: `[bold]` opens a style and `[/bold]` closes it. What
is meant literally is escaped, by a backslash in front of everything that looks like a tag.
Reading a line cuts it into pieces of text and tags, drops one level of backslashes and
replaces the short names of pictures. Which pictures there are, which names of styles mean the
same and which parameters of a tag are refused is left to a `Lexicon`.
-/

namespace SeamLint.Output

open SeamLint.Text

/-! ## Tags in a text -/

/-- A part of a text with markup: a character, or something between brackets that looks like
a tag, together with the backslashes in front of it. -/
inductive Item where
  | plain (c : Char)
  | tag (slashes : Nat) (inside : List Char)
deriving DecidableEq, Repr

/-- What the inside of a tag begins with. -/
def isTagStart (c : Char) : Bool := ('a' ≤ c && c ≤ 'z') || c == '#' || c == '/' || c == '@'

/-- What the inside of a tag consists of. -/
def isInside (c : Char) : Bool := c != '[' && c != ']'

/-- Splits a tag off the front of a text: its inside and what follows. -/
def splitTag? : List Char → Option (List Char × List Char)
  | '[' :: c :: rest =>
      if isTagStart c then
        match rest.dropWhile isInside with
        | ']' :: after => some (c :: rest.takeWhile isInside, after)
        | _ => none
      else none
  | _ => none

/-- The items of a text, at most `fuel` of them that are not backslashes. -/
def itemsFrom : Nat → List Char → List Item
  | 0, _ => []
  | _, [] => []
  | fuel + 1, c :: cs =>
      let slashes := (c :: cs).takeWhile (· == '\\')
      match splitTag? ((c :: cs).dropWhile (· == '\\')) with
      | some (inside, after) => .tag slashes.length inside :: itemsFrom fuel after
      | none => .plain c :: itemsFrom fuel cs

/-- The items of a text. -/
def items (s : List Char) : List Item := itemsFrom s.length s

/-- The text of a bracket with its inside. -/
def bracket (inside : List Char) : List Char := '[' :: inside ++ [']']

/-- An item as it is written. -/
def Item.source : Item → List Char
  | .plain c => [c]
  | .tag slashes inside => List.replicate slashes '\\' ++ bracket inside

/-! ## Escaping -/

/-- An item as it is written to be taken literally. -/
def Item.escaped : Item → List Char
  | .plain c => [c]
  | .tag slashes inside => List.replicate (2 * slashes + 1) '\\' ++ bracket inside

/-- A backslash at the very end is doubled, unless it has one before it already. -/
def guardEnd (s : List Char) : List Char :=
  match s.reverse with
  | ['\\'] => s ++ ['\\']
  | '\\' :: c :: _ => if c = '\\' then s else s ++ ['\\']
  | _ => s

/-- The text written so that it is taken literally. -/
def escape (s : String) : String :=
  String.ofList (guardEnd ((items s.toList).flatMap Item.escaped))

/-! ## Pictures -/

/-- What markup leaves open. -/
structure Lexicon where
  /-- The picture with a short name. -/
  picture? : List Char → Option (List Char)
  /-- The style that a name means. -/
  style : List Char → String
  /-- Why the parameters of a tag for an event are refused. -/
  refusal? : List Char → Option String

variable (lexicon : Lexicon)

/-- What a name between colons stands for. -/
def picture (name : List Char) : List Char :=
  match lexicon.picture? name with
  | some shown => shown
  | none => ':' :: name ++ [':']

/-- What a short name consists of. -/
def isNameChar (c : Char) : Bool := c != ':' && !isBlank c

/-- Replaces short names, looking at most `fuel` times. -/
def replaceNamesFrom : Nat → List Char → List Char
  | 0, s => s
  | _, [] => []
  | fuel + 1, c :: cs =>
      if c = ':' then
        match cs.dropWhile isNameChar with
        | ':' :: after => picture lexicon (cs.takeWhile isNameChar) ++ replaceNamesFrom fuel after
        | _ => c :: replaceNamesFrom fuel cs
      else c :: replaceNamesFrom fuel cs

/-- Replaces the short names of pictures, which stand between colons. -/
def replaceNames (s : List Char) : List Char := replaceNamesFrom lexicon s.length s

/-! ## Pieces -/

/-- A piece of a text with markup: literal text, or the inside of a tag and the place of its
bracket. -/
inductive Piece where
  | text (s : List Char)
  | tag (position : Nat) (inside : List Char)
deriving DecidableEq, Repr

/-- A piece of text, if there is any. -/
def textPiece (s : List Char) : List Piece := if s.isEmpty then [] else [.text s]

/-- The pieces of something that looks like a tag: of its backslashes every second one is
kept, and with an odd number of them the bracket is text. -/
def tagPieces (position slashes : Nat) (inside : List Char) : List Piece :=
  textPiece (List.replicate (slashes / 2) '\\') ++
    [if slashes % 2 = 1 then .text (bracket inside) else .tag (position + slashes) inside]

/-- The pieces of items that start at `position`; `before` holds the characters in front of
them, the last one first. -/
def piecesFrom : Nat → List Char → List Item → List Piece
  | _, before, [] => textPiece before.reverse
  | position, before, .plain c :: rest => piecesFrom (position + 1) (c :: before) rest
  | position, before, .tag slashes inside :: rest =>
      textPiece before.reverse ++ tagPieces position slashes inside ++
        piecesFrom (position + slashes + inside.length + 2) [] rest

/-- Brackets lose the backslash in front of them. -/
def openBrackets : List Char → List Char
  | [] => []
  | c :: cs =>
      if c = '\\' && cs.head? = some '[' then openBrackets cs else c :: openBrackets cs

/-- A piece of text as it appears. -/
def literal (s : List Char) : List Char := replaceNames lexicon (openBrackets s)

/-! ## Rendering -/

/-- A tag that closes nothing, or one that cannot be closed. -/
inductive MarkupFault where
  | unmatched (tag : String) (position : Nat)
  | nothingOpen (position : Nat)
  | refused (reason : String)
deriving DecidableEq, Repr

/-- The wording of a fault. -/
def MarkupFault.message : MarkupFault → String
  | .unmatched tag position =>
      s!"closing tag '[{tag}]' at position {position} doesn't match any open tag"
  | .nothingOpen position => s!"closing tag '[/]' at position {position} has nothing to close"
  | .refused reason => reason

/-- An open tag: its style, and its parameters after an equals sign. -/
structure OpenTag where
  style : String
  parameters : List Char
deriving DecidableEq, Repr

/-- Text and the tags that are open around it, the innermost first. -/
structure Segment where
  tags : List OpenTag
  text : List Char
deriving DecidableEq, Repr

/-- The name of a tag: what stands before an equals sign. -/
def tagName (inside : List Char) : List Char := inside.takeWhile (· != '=')

/-- The parameters of a tag: what stands after an equals sign. -/
def tagParameters (inside : List Char) : List Char := (inside.dropWhile (· != '=')).drop 1

/-- Closes a tag. The parameters of a tag for an event are read only now. -/
def closeTag (tag : OpenTag) : Except MarkupFault Unit :=
  if tag.style.toList.head? = some '@' && !tag.parameters.isEmpty then
    match lexicon.refusal? tag.parameters with
    | some reason => .error (.refused reason)
    | none => .ok ()
  else .ok ()

/-- The open tags after a tag. -/
def applyTag (tags : List OpenTag) (position : Nat) (inside : List Char) :
    Except MarkupFault (List OpenTag) :=
  match tagName inside with
  | '/' :: name =>
      match trim name with
      | [] =>
          match tags with
          | [] => .error (.nothingOpen position)
          | tag :: rest => do
              closeTag lexicon tag
              return rest
      | name =>
          match tags.find? fun tag => tag.style == lexicon.style name with
          | none => .error (.unmatched (String.ofList inside) position)
          | some tag => do
              closeTag lexicon tag
              return tags.eraseP fun tag => tag.style == lexicon.style name
  | name => .ok (⟨lexicon.style name, tagParameters inside⟩ :: tags)

/-- The segments of pieces inside open tags. -/
def segments (tags : List OpenTag) : List Piece → Except MarkupFault (List Segment)
  | [] => .ok []
  | .text s :: rest => do return ⟨tags, literal lexicon s⟩ :: (← segments tags rest)
  | .tag position inside :: rest => do segments (← applyTag lexicon tags position inside) rest

/-- Reads a text with markup. -/
def render (s : String) : Except MarkupFault (List Segment) :=
  segments lexicon [] (piecesFrom 0 [] (items s.toList))

/-! ## Colours -/

/-- The terminal codes of the styles that are used. -/
def styleCodes : List (String × String) :=
  [("bold red", "1;31"), ("yellow", "33"), ("cyan", "36"), ("dim", "2"), ("bold", "1"),
   ("red", "31"), ("italic", "3")]

/-- The terminal code of a style, if it has one. -/
def styleCode? (style : String) : Option String :=
  (styleCodes.find? fun entry => entry.1 == style).map Prod.snd

/-- The text between the terminal codes of its styles. -/
def coloured (styles : List String) (s : String) : String :=
  match styles.reverse.filterMap styleCode? with
  | [] => s
  | codes => if s.isEmpty then s else "\x1b[" ++ Text.join ";" codes ++ "m" ++ s ++ "\x1b[0m"

/-- A segment as it is printed. -/
def Segment.shown (color : Bool) (s : Segment) : String :=
  if color then coloured (s.tags.map OpenTag.style) (String.ofList s.text) else String.ofList s.text

/-- A line of text with markup as it is printed. -/
def renderLine (color : Bool) (s : String) : Except MarkupFault String := do
  return Text.join "" ((← render lexicon s).map (Segment.shown color)) ++ "\n"

end SeamLint.Output
