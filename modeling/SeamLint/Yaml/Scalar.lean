import SeamLint.Data.Access
import SeamLint.Number.Decimal
import SeamLint.Number.Integer

set_option autoImplicit false

/-! # Scalars of YAML

A scalar without quotes is null, a truth value or a number if it is written like one, and
otherwise a text. A scalar in quotes is always a text.
-/

namespace SeamLint.Yaml

open SeamLint.Data

/-- Why a YAML text cannot be read. -/
inductive Fault where
  /-- A bracket or a quote is not closed. -/
  | unclosed
  /-- Something stands where it must not stand, or is indented in a way it must not be. -/
  | misplaced
  /-- A tab is used as indentation. -/
  | tab
  /-- A character that cannot be part of the text. -/
  | unprintable
  | unknownEscape
  /-- A list or an object is used as a key. -/
  | keyNotScalar
  /-- An integer with more digits than are read. -/
  | longInteger (digits : Nat)
deriving DecidableEq, Repr

/-! ## Scalars without quotes -/

/-- The words that are no texts. -/
def words : List (String × Value) :=
  [("", .null), ("~", .null), ("null", .null), ("Null", .null), ("NULL", .null),
   ("true", .bool true), ("True", .bool true), ("TRUE", .bool true),
   ("yes", .bool true), ("Yes", .bool true), ("YES", .bool true),
   ("on", .bool true), ("On", .bool true), ("ON", .bool true),
   ("false", .bool false), ("False", .bool false), ("FALSE", .bool false),
   ("no", .bool false), ("No", .bool false), ("NO", .bool false),
   ("off", .bool false), ("Off", .bool false), ("OFF", .bool false)]

/-- A digit or an underscore, which may stand between digits. -/
def isDigitOrUnderscore (c : Char) : Bool := c.isDigit || c == '_'

/-- Digits without underscores. -/
def digitsOnly (cs : List Char) : List Char := cs.filter (· != '_')

/-- The digits of an integer: a lone zero, or digits that do not begin with zero. -/
def isWhole : List Char → Bool
  | ['0'] => true
  | c :: rest => c.isDigit && c != '0' && rest.all isDigitOrUnderscore
  | [] => false

/-- The exponent of a real number: a mark, a sign and digits, or nothing. -/
def exponent? : List Char → Option Int
  | [] => some 0
  | mark :: sign :: digits =>
      if (mark == 'e' || mark == 'E') && (sign == '-' || sign == '+') &&
          !digits.isEmpty && digits.all Char.isDigit then
        some (Number.signed (sign == '-') (Text.digitsValue digits))
      else none
  | [_] => none

/-- A real number: digits with a point among them, and an exponent. -/
def real? (negative : Bool) (cs : List Char) : Option Float :=
  let whole := cs.takeWhile isDigitOrUnderscore
  match cs.dropWhile isDigitOrUnderscore with
  | '.' :: rest =>
      let fraction := digitsOnly (rest.takeWhile isDigitOrUnderscore)
      match whole, exponent? (rest.dropWhile isDigitOrUnderscore) with
      | c :: _, some exponent =>
          if c.isDigit then
            some (Number.realOf negative (digitsOnly whole ++ fraction) (exponent - fraction.length))
          else none
      | _, _ => none
  | _ => none

/-- The value of a scalar without quotes. -/
def plainValue (cs : List Char) : Except Fault Value :=
  let text := String.ofList cs
  match words.find? fun word => word.1 == text with
  | some word => .ok word.2
  | none =>
      let (negative, unsigned) := Number.splitSign cs
      if isWhole unsigned then
        let digits := digitsOnly unsigned
        if digits.length > Number.digitLimit then .error (.longInteger digits.length)
        else .ok (.int (Number.signed negative (Text.digitsValue digits)))
      else
        match real? negative unsigned with
        | some x => .ok (.real x)
        | none => .ok (.text text)

/-! ## Escapes -/

/-- The characters with an escape of their own. -/
def escapes : List (Char × Char) :=
  [('0', '\x00'), ('a', '\x07'), ('b', '\x08'), ('t', '\t'), ('\t', '\t'), ('n', '\n'),
   ('v', '\x0b'), ('f', '\x0c'), ('r', '\r'), ('e', '\x1b'), (' ', ' '), ('\x22', '\x22'),
   ('\\', '\\'), ('/', '/'), ('N', '\u0085'), ('_', '\u00a0'),
   ('L', '\u2028'), ('P', '\u2029')]

/-- How many hexadecimal digits follow an escape. -/
def hexWidth? : Char → Option Nat
  | 'x' => some 2
  | 'u' => some 4
  | 'U' => some 8
  | _ => none

/-- The value of a hexadecimal digit. -/
def hexDigit? (c : Char) : Option Nat :=
  if c.isDigit then some (c.toNat - '0'.toNat)
  else if 'a' ≤ c && c ≤ 'f' then some (c.toNat - 'a'.toNat + 10)
  else if 'A' ≤ c && c ≤ 'F' then some (c.toNat - 'A'.toNat + 10)
  else none

/-- The character with a code point, or the replacement character if there is none. -/
def charOf (code : Nat) : Char := if code.isValidChar then Char.ofNat code else '\ufffd'

/-- The character behind a backslash, with what follows it. -/
def readEscape : List Char → Except Fault (Char × List Char)
  | [] => .error .unclosed
  | c :: rest =>
      match escapes.find? fun entry => entry.1 == c with
      | some entry => .ok (entry.2, rest)
      | none =>
          match hexWidth? c with
          | none => .error .unknownEscape
          | some width =>
              match (rest.take width).mapM hexDigit? with
              | some digits =>
                  if digits.length = width then
                    .ok (charOf (digits.foldl (fun n d => 16 * n + d) 0), rest.drop width)
                  else .error .unknownEscape
              | none => .error .unknownEscape

/-- The value of a key. -/
def keyOf (v : Value) : Except Fault Key := v.toKey.mapError fun _ => .keyNotScalar

end SeamLint.Yaml
