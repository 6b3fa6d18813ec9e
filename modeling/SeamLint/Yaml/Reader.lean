import SeamLint.Yaml.Cursor

set_option autoImplicit false

/-! # Reading YAML

The part of YAML that configurations and snapshots are written in: lists and objects by
indentation or in brackets, scalars with and without quotes, and comments. A document
without anything in it is null.
-/

namespace SeamLint.Yaml

open SeamLint.Data

/-- A value and the place behind it. -/
abbrev Reading := Except Fault (Value × Cursor)

/-- The quotes. -/
def isQuote (c : Char) : Bool := c == '\x22' || c == '\x27'

/-- Reads a text in quotes. -/
def quotedAt (c : Cursor) : Except Fault (String × Cursor) :=
  match c.rest with
  | quote :: rest => do
      let (text, behind) ← readQuoted quote (rest.length + 1) rest
      return (String.ofList text, c.moveTo behind)
  | [] => .error .misplaced

/-- Reads a scalar. -/
def scalarAt (inFlow : Bool) (indent : Int) (c : Cursor) : Reading :=
  if c.rest.head?.any isQuote then do
    let (text, behind) ← quotedAt c
    return (.text text, behind)
  else if startsPlain inFlow c.rest then do
    let (text, behind) := readPlain inFlow indent c.rest.length c
    return (← plainValue text, behind)
  else .error .misplaced

/-! ## Lists and objects in brackets -/

mutual

/-- Reads a value inside brackets. -/
def flowValue : Nat → Cursor → Reading
  | 0, _ => .error .unclosed
  | fuel + 1, c =>
      match c.rest with
      | [] => .error .unclosed
      | '[' :: _ => do flowItems fuel [] (← c.step.next)
      | '\x7b' :: _ => do flowFields fuel [] (← c.step.next)
      | _ => scalarAt true (-1) c

/-- Reads the items of a list from the place of one of them or of the closing bracket. An
item with a colon behind it is an object with one field. -/
def flowItems : Nat → List Value → Cursor → Reading
  | 0, _, _ => .error .unclosed
  | fuel + 1, read, c =>
      match c.rest with
      | [] => .error .unclosed
      | ']' :: _ => .ok (.list read, c.step)
      | _ => do
          let (item, behind) ← flowValue fuel c
          let following ← behind.next
          let (item, following) ←
            if following.rest.head? = some ':' then do
              let key ← keyOf item
              let (value, last) ← flowFieldValue fuel (← following.step.next)
              pure (Value.object [(key, value)], last)
            else pure (item, following)
          match following.rest with
          | ',' :: _ => flowItems fuel (read ++ [item]) (← following.step.next)
          | ']' :: _ => return (.list (read ++ [item]), following.step)
          | [] => .error .unclosed
          | _ => .error .misplaced

/-- Reads the value of a field, which may be missing, and goes on to the next token. -/
def flowFieldValue : Nat → Cursor → Reading
  | 0, _ => .error .unclosed
  | fuel + 1, c =>
      match c.rest with
      | [] => .error .unclosed
      | mark :: _ =>
          if mark = ',' || mark = ']' || mark = '\x7d' then .ok (.null, c)
          else do
            let (value, behind) ← flowValue fuel c
            return (value, ← behind.next)

/-- Reads the fields of an object from the place of one of them or of the closing brace. -/
def flowFields : Nat → Fields → Cursor → Reading
  | 0, _, _ => .error .unclosed
  | fuel + 1, read, c =>
      match c.rest with
      | [] => .error .unclosed
      | '\x7d' :: _ => .ok (.object read, c.step)
      | _ => do
          let (name, behind) ← flowValue fuel c
          let key ← keyOf name
          let following ← behind.next
          let (value, following) ←
            if following.rest.head? = some ':' then do
              flowFieldValue fuel (← following.step.next)
            else pure (.null, following)
          let fields := read.put key value
          match following.rest with
          | ',' :: _ => flowFields fuel fields (← following.step.next)
          | '\x7d' :: _ => return (.object fields, following.step)
          | [] => .error .unclosed
          | _ => .error .misplaced

end

/-! ## Lists and objects by indentation -/

/-- The rest begins with a bracket. -/
def startsFlow : List Char → Bool
  | '[' :: _ => true
  | '\x7b' :: _ => true
  | _ => false

/-- Reads a key of an object and its colon, if there is one on this line. -/
def keyAt? (c : Cursor) : Except Fault (Option (Key × Cursor)) :=
  if c.rest.head?.any isQuote then do
    let (text, behind) ← quotedAt c
    let colon := behind.advance (behind.rest.takeWhile (· == ' ')).length
    if behind.line = c.line && startsValue false colon.rest then
      return some (.text text, colon.step)
    return none
  else if startsPlain false c.rest then do
    let text := plainLine false c.rest
    let behind := c.advance text.length
    let colon := behind.advance (behind.rest.takeWhile (· == ' ')).length
    if startsValue false colon.rest then
      return some (← keyOf (← plainValue text), colon.step)
    return none
  else return none

/-- Reads a value that stands behind a key on its line. -/
def inlineValue (indent : Int) (c : Cursor) : Reading :=
  if startsFlow c.rest then flowValue (2 * c.rest.length + 2) c
  else scalarAt false indent c

mutual

/-- Reads the value at a token that is indented more than `indent`. -/
def blockValue (indent : Int) : Nat → Cursor → Reading
  | 0, _ => .error .misplaced
  | fuel + 1, c =>
      if startsItem c.rest then blockItems c.column fuel [] c
      else do
        match ← keyAt? c with
        | some _ => blockFields c.column fuel [] c
        | none => inlineValue indent c

/-- Reads list items, whose dashes stand in the same column. -/
def blockItems (column : Nat) : Nat → List Value → Cursor → Reading
  | 0, _, _ => .error .misplaced
  | fuel + 1, read, c =>
      if c.column = column && startsItem c.rest then do
        let content ← c.step.next
        let (item, behind) ←
          if !content.atEnd && column < content.column then blockValue column fuel content
          else pure (.null, content)
        blockItems column fuel (read ++ [item]) (← behind.next)
      else if !c.atEnd && column < c.column then .error .misplaced
      else .ok (.list read, c)

/-- Reads fields, whose keys stand in the same column. The items of a list may stand in the
column of the key that they belong to. -/
def blockFields (column : Nat) : Nat → Fields → Cursor → Reading
  | 0, _, _ => .error .misplaced
  | fuel + 1, read, c =>
      if c.atEnd || c.column < column then .ok (.object read, c)
      else if column < c.column then .error .misplaced
      else do
        match ← keyAt? c with
        | none => .error .misplaced
        | some (key, behind) =>
            let content ← behind.next
            let (value, last) ←
              if content.atEnd then pure (.null, content)
              else if content.line = c.line then do
                if startsItem content.rest then throw .misplaced
                match ← keyAt? content with
                | some _ => throw .misplaced
                | none => inlineValue column content
              else if column < content.column then blockValue column fuel content
              else if content.column = column && startsItem content.rest then
                blockItems column fuel [] content
              else pure (.null, content)
            blockFields column fuel (read.put key value) (← last.next)

end

/-! ## Documents -/

/-- A character that a text may hold. -/
def isAllowed (c : Char) : Bool :=
  let n := c.toNat
  n == 0x09 || n == 0x0a || n == 0x0d || (0x20 ≤ n && n ≤ 0x7e) || n == 0x85 ||
    (0xa0 ≤ n && n ≤ 0xd7ff) || (0xe000 ≤ n && n ≤ 0xfffd) || 0x10000 ≤ n

/-- The text behind the mark that a document may begin with. -/
def dropMark (c : Cursor) : Cursor :=
  match c.rest with
  | '-' :: '-' :: '-' :: rest => if c.column = 0 && startsBlank rest then c.advance 3 else c
  | _ => c

/-- Reads a document. -/
def read (text : String) : Except Fault Value := do
  let cs := text.toList
  if !cs.all isAllowed then throw .unprintable
  let body := if cs.head? = some '\ufeff' then cs.drop 1 else cs
  let first ← Cursor.next ⟨0, 0, body⟩
  let c ← (dropMark first).next
  if c.atEnd then return .null
  let (value, behind) ← blockValue (-1) (2 * body.length + 2) c
  let last ← behind.next
  if last.atEnd then return value
  throw .misplaced

end SeamLint.Yaml
