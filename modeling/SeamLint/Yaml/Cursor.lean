import SeamLint.Yaml.Scalar

set_option autoImplicit false

/-! # Places in a YAML text

A cursor is a place in a text: the rest of the text and the line and column at which it
begins. What belongs together is told by columns, so every step keeps them.
-/

namespace SeamLint.Yaml

/-- A place in a text. -/
structure Cursor where
  line : Nat := 0
  column : Nat := 0
  rest : List Char
deriving DecidableEq, Repr

namespace Cursor

/-- The place behind one more character. -/
def step (c : Cursor) : Cursor :=
  match c.rest with
  | [] => c
  | '\n' :: rest => ⟨c.line + 1, 0, rest⟩
  | _ :: rest => ⟨c.line, c.column + 1, rest⟩

/-- The place behind `n` more characters. -/
def advance : Nat → Cursor → Cursor
  | 0, c => c
  | n + 1, c => advance n c.step

/-- The place that has the given rest, which is an end of the rest of `c`. -/
def moveTo (c : Cursor) (rest : List Char) : Cursor :=
  c.advance (c.rest.length - rest.length)

/-- The rest behind spaces, line breaks and comments. -/
def dropBlank (inComment : Bool) : List Char → List Char
  | [] => []
  | c :: rest =>
      if c = '\n' then dropBlank false rest
      else if inComment then dropBlank true rest
      else if c = ' ' then dropBlank false rest
      else if c = '#' then dropBlank true rest
      else c :: rest

/-- The place of the next token. A tab is no token. -/
def next (c : Cursor) : Except Fault Cursor :=
  let found := c.moveTo (dropBlank false c.rest)
  if found.rest.head? = some '\t' then .error .tab else .ok found

/-- Nothing is left. -/
def atEnd (c : Cursor) : Bool := c.rest.isEmpty

end Cursor

/-! ## What may stand at a place -/

/-- The rest begins with a space, a tab or a line break, or there is none. -/
def startsBlank : List Char → Bool
  | [] => true
  | c :: _ => c == ' ' || c == '\n' || c == '\t'

/-- The rest begins with the dash of a list item. -/
def startsItem : List Char → Bool
  | '-' :: rest => startsBlank rest
  | _ => false

/-- The characters that structure lists and objects in brackets. -/
def isFlowMark (c : Char) : Bool :=
  c == ',' || c == '[' || c == ']' || c == '\x7b' || c == '\x7d'

/-- The characters that cannot begin a scalar without quotes. -/
def marks : List Char :=
  ['-', '?', ':', ',', '[', ']', '\x7b', '\x7d', '#', '&', '*', '!', '|', '>', '\x27', '\x22',
   '%', '@', '\x60']

/-- A scalar without quotes may begin here. -/
def startsPlain (inFlow : Bool) : List Char → Bool
  | [] => false
  | c :: rest =>
      (!startsBlank (c :: rest) && !marks.contains c) ||
        (!startsBlank rest && (c == '-' || (!inFlow && (c == '?' || c == ':'))))

/-- A colon that ends a key begins here. -/
def startsValue (inFlow : Bool) : List Char → Bool
  | ':' :: rest => startsBlank rest || (inFlow && rest.head?.any isFlowMark)
  | _ => false

/-- A scalar without quotes cannot go on here. -/
def stopsPlain (inFlow : Bool) : List Char → Bool
  | [] => true
  | c :: rest =>
      c == '\n' || c == '\t' || startsValue inFlow (c :: rest) ||
        (inFlow && (isFlowMark c || c == '?'))

/-- A scalar without quotes ends here: it cannot go on, or only spaces and then a comment
follow. -/
def endsPlain (inFlow : Bool) (cs : List Char) : Bool :=
  let behind := cs.dropWhile (· == ' ')
  stopsPlain inFlow behind || (behind.head? == some '#' && cs.head? == some ' ')

/-- The part of a scalar without quotes that stands on one line. -/
def plainLine (inFlow : Bool) : List Char → List Char
  | [] => []
  | c :: rest => if endsPlain inFlow (c :: rest) then [] else c :: plainLine inFlow rest

/-! ## Scalars over several lines -/

/-- What a number of line breaks inside a scalar stands for: one is a space, and of more the
first is left out. -/
def folded (breaks : Nat) : List Char :=
  if breaks = 1 then [' '] else List.replicate (breaks - 1) '\n'

/-- Reads a scalar without quotes. Further lines belong to it if they are indented more than
`indent`, or in any case inside brackets. -/
def readPlain (inFlow : Bool) (indent : Int) : Nat → Cursor → List Char × Cursor
  | 0, c => ([], c)
  | fuel + 1, c =>
      let part := plainLine inFlow c.rest
      let behind := c.advance part.length
      let blank := behind.rest.takeWhile fun ch => ch == ' ' || ch == '\n'
      let following := behind.advance blank.length
      let goesOn := blank.contains '\n' && !endsPlain inFlow following.rest &&
        following.rest.head? != some '#' && (inFlow || indent < following.column)
      if goesOn then
        let (more, last) := readPlain inFlow indent fuel following
        (part ++ folded (blank.count '\n') ++ more, last)
      else (part, behind)

/-- Reads up to a closing quote. In double quotes a backslash begins an escape, and in single
quotes a quote is written twice. Line breaks are folded. -/
def readQuoted (quote : Char) : Nat → List Char → Except Fault (List Char × List Char)
  | 0, _ => .error .unclosed
  | _, [] => .error .unclosed
  | fuel + 1, c :: rest =>
      if c = quote then
        if quote = '\x27' && rest.head? = some '\x27' then do
          let (more, last) ← readQuoted quote fuel (rest.drop 1)
          return (c :: more, last)
        else .ok ([], rest)
      else if c = '\\' && quote = '\x22' then
        if rest.head? = some '\n' then
          readQuoted quote fuel ((rest.drop 1).dropWhile (· == ' '))
        else do
          let (escaped, behind) ← readEscape rest
          let (more, last) ← readQuoted quote fuel behind
          return (escaped :: more, last)
      else
        let blank := (c :: rest).takeWhile fun ch => ch == ' ' || ch == '\t' || ch == '\n'
        let behind := (c :: rest).drop blank.length
        if blank.contains '\n' then do
          let (more, last) ← readQuoted quote fuel behind
          return (folded (blank.count '\n') ++ more, last)
        else do
          let (more, last) ← readQuoted quote fuel rest
          return (c :: more, last)

end SeamLint.Yaml
