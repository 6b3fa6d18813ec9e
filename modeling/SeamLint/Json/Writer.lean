import SeamLint.Data.Shown

set_option autoImplicit false

/-! # Writing JSON

JSON is written in ASCII: every other character becomes one or two unit escapes. `compact`
writes a value on one line, `pretty` one part per line with two more spaces for each level.
-/

namespace SeamLint.Json

open SeamLint.Data SeamLint.Text

/-- The escape of a sixteen-bit unit. -/
def unitEscape (unit : Nat) : List Char :=
  '\\' :: 'u' :: zeroPad 4 (Nat.toDigits 16 unit)

/-- How one character is written inside a text. -/
def writtenChar (c : Char) : List Char :=
  let n := c.toNat
  if c = '\x22' then ['\\', '\x22']
  else if c = '\\' then ['\\', '\\']
  else if c = '\n' then ['\\', 'n']
  else if c = '\r' then ['\\', 'r']
  else if c = '\t' then ['\\', 't']
  else if c = '\x08' then ['\\', 'b']
  else if c = '\x0c' then ['\\', 'f']
  else if 0x20 ≤ n && n < 0x7f then [c]
  else if n < 0x10000 then unitEscape n
  else unitEscape (0xd800 + (n - 0x10000) / 0x400) ++ unitEscape (0xdc00 + (n - 0x10000) % 0x400)

/-- A text between quotes. -/
def writtenText (s : String) : String :=
  String.ofList ('\x22' :: s.toList.flatMap writtenChar ++ ['\x22'])

/-- A real number; those without digits have words. -/
def writtenReal (x : Float) : String :=
  match Number.Binary.ofFloat x with
  | .nan => "NaN"
  | .infinite negative => if negative then "-Infinity" else "Infinity"
  | finite => finite.text

/-- A name; keys that are no texts are written as the text they are shown as. -/
def writtenKey (key : Key) : String := writtenText key.shown

/-- A value without parts. -/
def writtenScalar : Value → String
  | .null => "null"
  | .bool b => if b then "true" else "false"
  | .int n => toString n
  | .real x => writtenReal x
  | .text s => writtenText s
  | .list _ => "[]"
  | .object _ => "\x7b\x7d"

/-! ## On one line -/

mutual

/-- A value on one line. -/
def compact : Value → String
  | .list items => "[" ++ join ", " (compactItems items) ++ "]"
  | .object fields => "\x7b" ++ join ", " (compactFields fields) ++ "\x7d"
  | v => writtenScalar v

/-- The items of a list, each on one line. -/
def compactItems : List Value → List String
  | [] => []
  | v :: rest => compact v :: compactItems rest

/-- The fields of an object, each on one line. -/
def compactFields : List (Key × Value) → List String
  | [] => []
  | (k, v) :: rest => (writtenKey k ++ ": " ++ compact v) :: compactFields rest

end

/-! ## One part per line -/

/-- A line break and the indentation of a level. -/
def newLine (level : Nat) : String :=
  String.ofList ('\n' :: List.replicate (2 * level) ' ')

/-- Parts between brackets, each on a line of its own. -/
def bracketed (opening closing : String) (level : Nat) (parts : List String) : String :=
  opening ++ newLine (level + 1) ++ join ("," ++ newLine (level + 1)) parts ++
    newLine level ++ closing

mutual

/-- A value inside `level` open lists and objects. -/
def prettyAt (level : Nat) : Value → String
  | .list (v :: rest) =>
      bracketed "[" "]" level (prettyAt (level + 1) v :: prettyItems (level + 1) rest)
  | .object ((k, v) :: rest) =>
      bracketed "\x7b" "\x7d" level
        ((writtenKey k ++ ": " ++ prettyAt (level + 1) v) :: prettyFields (level + 1) rest)
  | v => writtenScalar v

/-- The items of a list. -/
def prettyItems (level : Nat) : List Value → List String
  | [] => []
  | v :: rest => prettyAt level v :: prettyItems level rest

/-- The fields of an object. -/
def prettyFields (level : Nat) : List (Key × Value) → List String
  | [] => []
  | (k, v) :: rest => (writtenKey k ++ ": " ++ prettyAt level v) :: prettyFields level rest

end

/-- A value with one part per line. -/
def pretty (v : Value) : String := prettyAt 0 v

/-- The text of a value, which has none if it holds an integer with too many digits. -/
def write (v : Value) : Except Number.Unwritable String :=
  if v.isShowable then .ok (pretty v) else .error {}

theorem write_eq_ok {v : Value} {text : String} :
    write v = .ok text ↔ v.isShowable = true ∧ pretty v = text := by
  unfold write
  cases v.isShowable <;> simp

end SeamLint.Json
