import SeamLint.Data.Value
import SeamLint.Number.Decimal
import SeamLint.Number.Integer

set_option autoImplicit false

/-! # The tokens of a JSON text

`tokens` cuts a JSON text into its tokens, each with the offset at which it begins. Where
the text cannot be read on, the last token tells why: a fault only counts if a value is
expected at its place, so it is for the reader of the tokens to judge it.
-/

namespace SeamLint.Json

open SeamLint.Data

/-- Why a JSON text cannot be read. -/
inductive Cause where
  | expectedValue
  | expectedName
  | expectedColon
  | expectedComma
  | extraData
  | unterminatedText
  | controlCharacter
  | unknownEscape
  | badUnicodeEscape
  | byteOrderMark
  /-- An integer with more digits than are read. -/
  | longInteger (digits : Nat)
deriving DecidableEq, Repr

/-- A cause and the offset of the character it is about. -/
structure Fault where
  cause : Cause
  offset : Nat
deriving DecidableEq, Repr

/-- A token of a JSON text. -/
inductive Token where
  | openList
  | closeList
  | openObject
  | closeObject
  | comma
  | colon
  | text (s : String)
  | scalar (v : Value)
  | fault (f : Fault)

/-- A token and the offset at which it begins. -/
structure Placed where
  offset : Nat
  token : Token

/-- White space between tokens. -/
def isSpace (c : Char) : Bool := c == ' ' || c == '\t' || c == '\n' || c == '\r'

/-! ## Texts -/

/-- The value of a hexadecimal digit. -/
def hexValue? (c : Char) : Option Nat :=
  let n := c.toNat
  if 0x30 ≤ n && n ≤ 0x39 then some (n - 0x30)
  else if 0x61 ≤ n && n ≤ 0x66 then some (n - 0x61 + 10)
  else if 0x41 ≤ n && n ≤ 0x46 then some (n - 0x41 + 10)
  else none

/-- The character that a backslash followed by `c` stands for. -/
def escaped? (c : Char) : Option Char :=
  match c with
  | '\x22' => some '\x22'
  | '\\' => some '\\'
  | '/' => some '/'
  | 'b' => some '\x08'
  | 'f' => some '\x0c'
  | 'n' => some '\n'
  | 'r' => some '\r'
  | 't' => some '\t'
  | _ => none

/-- The first half of a surrogate pair. -/
def isHighSurrogate (unit : Nat) : Bool := 0xd800 ≤ unit && unit ≤ 0xdbff

/-- The second half of a surrogate pair. -/
def isLowSurrogate (unit : Nat) : Bool := 0xdc00 ≤ unit && unit ≤ 0xdfff

/-- The character of a unit; half a surrogate pair on its own has none. -/
def unitChar (unit : Nat) : Char :=
  if isHighSurrogate unit || isLowSurrogate unit then '\ufffd' else Char.ofNat unit

/-- The character of a surrogate pair. -/
def pairChar (high low : Nat) : Char :=
  Char.ofNat (0x10000 + (high - 0xd800) * 0x400 + (low - 0xdc00))

/-- Where the reader of a text stands. A `high` unit is the first half of a surrogate pair
that waits for its second half. -/
inductive TextState where
  /-- Between characters. -/
  | plain
  /-- Right after a unit escape, whose `u` stands at `mark`. -/
  | afterUnit (mark : Nat) (high : Option Nat)
  /-- After the backslash at `mark`. -/
  | escape (mark : Nat) (high : Option Nat)
  /-- Inside a unit escape with `missing` digits still to come. -/
  | unit (mark : Nat) (missing : Nat) (value : Nat) (high : Option Nat)

/-- The characters read so far, newest first, after a waiting half pair found no partner. -/
def flushHigh (high : Option Nat) (read : List Char) : List Char :=
  match high with
  | some unit => unitChar unit :: read
  | none => read

/-- The state and the characters after the unit escape at `mark` has been read. -/
def finishUnit (mark unit : Nat) (high : Option Nat) (read : List Char) :
    TextState × List Char :=
  match high with
  | some first =>
      if isLowSurrogate unit then (.afterUnit mark none, pairChar first unit :: read)
      else if isHighSurrogate unit then (.afterUnit mark (some unit), unitChar first :: read)
      else (.afterUnit mark none, unitChar unit :: unitChar first :: read)
  | none =>
      if isHighSurrogate unit then (.afterUnit mark (some unit), read)
      else (.afterUnit mark none, unitChar unit :: read)

/-- Reads a text up to its closing quote. `start` is the offset of the opening quote,
`offset` that of the next character, `read` what was read so far, newest first. A unit
escape must be followed by one more character. -/
def readText (start : Nat) : TextState → Nat → List Char → List Char →
    Except Fault (List Char × Nat × List Char)
  | .unit mark .., _, _, [] => .error ⟨.badUnicodeEscape, mark⟩
  | .afterUnit mark _, _, _, [] => .error ⟨.badUnicodeEscape, mark⟩
  | .plain, _, _, [] => .error ⟨.unterminatedText, start⟩
  | .escape .., _, _, [] => .error ⟨.unterminatedText, start⟩
  | .unit mark missing value high, offset, read, c :: cs =>
      match hexValue? c with
      | none => .error ⟨.badUnicodeEscape, mark⟩
      | some d =>
          if missing ≤ 1 then
            let next := finishUnit mark (16 * value + d) high read
            readText start next.1 (offset + 1) next.2 cs
          else
            readText start (.unit mark (missing - 1) (16 * value + d) high) (offset + 1) read cs
  | .escape mark high, offset, read, c :: cs =>
      if c == 'u' then readText start (.unit offset 4 0 high) (offset + 1) read cs
      else
        match escaped? c with
        | some e => readText start .plain (offset + 1) (e :: flushHigh high read) cs
        | none => .error ⟨.unknownEscape, mark⟩
  | .plain, offset, read, c :: cs =>
      if c == '\x22' then .ok (read.reverse, offset + 1, cs)
      else if c == '\\' then readText start (.escape offset none) (offset + 1) read cs
      else if c.toNat < 0x20 then .error ⟨.controlCharacter, offset⟩
      else readText start .plain (offset + 1) (c :: read) cs
  | .afterUnit _ high, offset, read, c :: cs =>
      if c == '\x22' then .ok ((flushHigh high read).reverse, offset + 1, cs)
      else if c == '\\' then readText start (.escape offset high) (offset + 1) read cs
      else if c.toNat < 0x20 then .error ⟨.controlCharacter, offset⟩
      else readText start .plain (offset + 1) (c :: flushHigh high read) cs

/-! ## Numbers -/

/-- The fraction of a number: a point and at least one digit, or nothing. -/
def splitFraction (cs : List Char) : List Char × List Char :=
  match cs with
  | '.' :: rest =>
      let digits := rest.takeWhile Char.isDigit
      if digits.isEmpty then ([], cs) else (digits, rest.dropWhile Char.isDigit)
  | _ => ([], cs)

/-- The digits after an exponent mark and its sign. -/
def splitExponentDigits (cs rest : List Char) (negative : Bool) :
    Option Int × List Char :=
  let digits := rest.takeWhile Char.isDigit
  if digits.isEmpty then (none, cs)
  else (some (Number.signed negative (Text.digitsValue digits)), rest.dropWhile Char.isDigit)

/-- The exponent of a number: a mark, an optional sign and at least one digit, or
nothing. -/
def splitExponent (cs : List Char) : Option Int × List Char :=
  match cs with
  | mark :: rest =>
      if mark == 'e' || mark == 'E' then
        match rest with
        | '-' :: digits => splitExponentDigits cs digits true
        | '+' :: digits => splitExponentDigits cs digits false
        | digits => splitExponentDigits cs digits false
      else (none, cs)
  | [] => (none, cs)

/-- The integer part of a number: a lone zero, or digits that do not begin with zero. -/
def splitWhole (cs : List Char) : List Char × List Char :=
  match cs with
  | '0' :: rest => (['0'], rest)
  | _ => (cs.takeWhile Char.isDigit, cs.dropWhile Char.isDigit)

/-- The number at the head of the unsigned text, with what follows it. -/
def readNumber? (negative : Bool) (offset : Nat) (cs : List Char) :
    Option (Token × List Char) :=
  let (whole, afterWhole) := splitWhole cs
  let (fraction, afterFraction) := splitFraction afterWhole
  let (exponent, rest) := splitExponent afterFraction
  if whole.isEmpty then none
  else if fraction.isEmpty && exponent.isNone then
    if whole.length > Number.digitLimit then
      some (.fault ⟨.longInteger whole.length, offset⟩, rest)
    else some (.scalar (.int (Number.signed negative (Text.digitsValue whole))), rest)
  else
    let shift := exponent.getD 0 - fraction.length
    some (.scalar (.real (Number.realOf negative (whole ++ fraction) shift)), rest)

/-! ## All tokens -/

/-- The words of JSON and of the numbers that have no digits. -/
def words : List (String × Value) :=
  [("null", .null), ("true", .bool true), ("false", .bool false), ("NaN", .real (0.0 / 0.0)),
   ("Infinity", .real (1.0 / 0.0)), ("-Infinity", .real (-1.0 / 0.0))]

/-- The word or number at the head of the text, with what follows it. -/
def readScalar? (offset : Nat) (cs : List Char) : Option (Token × List Char) :=
  match words.find? fun word => word.1.toList.isPrefixOf cs with
  | some word => some (.scalar word.2, cs.drop word.1.length)
  | none =>
      match cs with
      | '-' :: rest => readNumber? true offset rest
      | _ => readNumber? false offset cs

/-- The token of a single character. -/
def punctuation? (c : Char) : Option Token :=
  match c with
  | '[' => some .openList
  | ']' => some .closeList
  | '\x7b' => some .openObject
  | '\x7d' => some .closeObject
  | ',' => some .comma
  | ':' => some .colon
  | _ => none

/-- The tokens of a text whose first character stands at `offset`, at most `fuel` of
them. -/
def tokensFrom : Nat → Nat → List Char → List Placed
  | 0, _, _ => []
  | _ + 1, _, [] => []
  | fuel + 1, offset, c :: cs =>
      if isSpace c then tokensFrom fuel (offset + 1) cs
      else
        match punctuation? c with
        | some token => ⟨offset, token⟩ :: tokensFrom fuel (offset + 1) cs
        | none =>
            if c == '\x22' then
              match readText offset .plain (offset + 1) [] cs with
              | .ok (s, next, rest) =>
                  ⟨offset, .text (String.ofList s)⟩ :: tokensFrom fuel next rest
              | .error f => [⟨offset, .fault f⟩]
            else
              match readScalar? offset (c :: cs) with
              | some (.fault f, _) => [⟨offset, .fault f⟩]
              | some (token, rest) =>
                  ⟨offset, token⟩ ::
                    tokensFrom fuel (offset + ((c :: cs).length - rest.length)) rest
              | none => [⟨offset, .fault ⟨.expectedValue, offset⟩⟩]

/-- The tokens of a text. Every token takes at least one character. -/
def tokens (cs : List Char) : List Placed := tokensFrom cs.length 0 cs

end SeamLint.Json
