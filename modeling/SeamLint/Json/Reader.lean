import SeamLint.Json.Token

set_option autoImplicit false

/-! # Reading JSON

The reader goes through the tokens once, with the lists and objects that are still open on
a stack. What it expects next decides which fault a wrong token is.
-/

namespace SeamLint.Json

open SeamLint.Data

/-- A list or object that is still open: its parts so far, for a list the newest first, and
for an object the name whose value comes next. -/
inductive Open where
  | list (items : List Value)
  | object (fields : Fields) (name : String)

/-- What may come next. -/
inductive Expected where
  | value
  | valueOrClose
  | itemEnd
  | name
  | nameOrClose
  | colon
  | fieldEnd
  | nothing
deriving DecidableEq, Repr

/-- The fault that a missing or wrong token is. -/
def Expected.cause : Expected → Cause
  | .value | .valueOrClose => .expectedValue
  | .itemEnd | .fieldEnd => .expectedComma
  | .name | .nameOrClose => .expectedName
  | .colon => .expectedColon
  | .nothing => .extraData

/-- The reader between two tokens. `finished` is the whole value once it has been read. -/
structure State where
  pending : List Open
  expected : Expected
  finished : Value

/-- The state after a complete value. -/
def State.complete (pending : List Open) (v : Value) : State :=
  match pending with
  | [] => ⟨[], .nothing, v⟩
  | .list items :: rest => ⟨.list (v :: items) :: rest, .itemEnd, .null⟩
  | .object fields name :: rest =>
      ⟨.object (fields.put (.text name) v) name :: rest, .fieldEnd, .null⟩

/-- The state after a token where a value is expected. -/
def State.takeValue (s : State) (t : Placed) : Except Fault State :=
  match t.token with
  | .openList => .ok ⟨.list [] :: s.pending, .valueOrClose, .null⟩
  | .openObject => .ok ⟨.object [] "" :: s.pending, .nameOrClose, .null⟩
  | .text text => .ok (.complete s.pending (.text text))
  | .scalar v => .ok (.complete s.pending v)
  | .fault f => .error f
  | _ => .error ⟨.expectedValue, t.offset⟩

/-- The state after a token where a name is expected. -/
def State.takeName (s : State) (t : Placed) : Except Fault State :=
  match s.pending, t.token with
  | .object fields _ :: rest, .text name => .ok ⟨.object fields name :: rest, .colon, .null⟩
  | _, .fault f =>
      match f.cause with
      | .expectedValue | .longInteger _ => .error ⟨.expectedName, t.offset⟩
      | _ => .error f
  | _, _ => .error ⟨.expectedName, t.offset⟩

/-- The state after the token that closes the innermost list or object. -/
def State.close (s : State) (t : Placed) : Except Fault State :=
  match s.pending, t.token with
  | .list items :: rest, .closeList => .ok (.complete rest (.list items.reverse))
  | .object fields _ :: rest, .closeObject => .ok (.complete rest (.object fields))
  | _, _ => .error ⟨s.expected.cause, t.offset⟩

/-- The state after one more token. -/
def State.next (s : State) (t : Placed) : Except Fault State :=
  match s.expected, t.token with
  | .value, _ => s.takeValue t
  | .valueOrClose, .closeList => s.close t
  | .valueOrClose, _ => s.takeValue t
  | .nameOrClose, .closeObject => s.close t
  | .nameOrClose, _ => s.takeName t
  | .name, _ => s.takeName t
  | .colon, .colon => .ok { s with expected := .value }
  | .itemEnd, .comma => .ok { s with expected := .value }
  | .fieldEnd, .comma => .ok { s with expected := .name }
  | .itemEnd, _ => s.close t
  | .fieldEnd, _ => s.close t
  | expected, _ => .error ⟨expected.cause, t.offset⟩

/-- Reads a JSON text. -/
def read (text : String) : Except Fault Value := do
  let cs := text.toList
  if cs.head? = some '\ufeff' then throw ⟨.byteOrderMark, 0⟩
  let last ← (tokens cs).foldlM State.next ⟨[], .value, .null⟩
  match last.expected with
  | .nothing => return last.finished
  | expected => throw ⟨expected.cause, cs.length⟩

/-! ## Wording -/

/-- The wording of a cause. -/
def Cause.message : Cause → String
  | .expectedValue => "Expecting value"
  | .expectedName => "Expecting property name enclosed in double quotes"
  | .expectedColon => "Expecting ':' delimiter"
  | .expectedComma => "Expecting ',' delimiter"
  | .extraData => "Extra data"
  | .unterminatedText => "Unterminated string starting at"
  | .controlCharacter => "Invalid control character at"
  | .unknownEscape => "Invalid \\escape"
  | .badUnicodeEscape => "Invalid \\uXXXX escape"
  | .byteOrderMark => "Unexpected UTF-8 BOM (decode using utf-8-sig)"
  | .longInteger digits => (Number.IntegerFault.tooLong digits).message

/-- The line of an offset, counted from one. -/
def lineOf (cs : List Char) (offset : Nat) : Nat :=
  (cs.take offset).count '\n' + 1

/-- The column of an offset in its line, counted from one. -/
def columnOf (cs : List Char) (offset : Nat) : Nat :=
  ((cs.take offset).reverse.takeWhile (· != '\n')).length + 1

/-- The wording of a fault in a text, with its place. -/
def Fault.message (f : Fault) (text : String) : String :=
  let line := lineOf text.toList f.offset
  let column := columnOf text.toList f.offset
  s!"{f.cause.message}: line {line} column {column} (char {f.offset})"

end SeamLint.Json
