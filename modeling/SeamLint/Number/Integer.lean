import SeamLint.Text.Basic
import SeamLint.Text.Blank
import SeamLint.Text.Digit
import SeamLint.Text.Quoted

set_option autoImplicit false

/-! # Reading integers

A written integer is an optional sign and decimal digits of any script, with single
underscores allowed between digits and blanks allowed at both ends. Texts with more than
`digitLimit` digits are refused, so that reading a number never takes long, and integers with
more digits are not written either.
-/

namespace SeamLint.Number

open SeamLint.Text

/-- Why a text is no integer. -/
inductive IntegerFault where
  /-- The text does not have the form of an integer. -/
  | malformed (text : String)
  /-- The text has more digits than are read. -/
  | tooLong (digits : Nat)
deriving DecidableEq, Repr

/-- The most digits a written integer may have. Zeros in front count. -/
def digitLimit : Nat := 4300

/-- How much of a refused text a message shows. -/
def shownLength : Nat := 200

/-- The wording of a refusal. -/
def IntegerFault.message : IntegerFault → String
  | .malformed text =>
      "invalid literal for int() with base 10: " ++
        String.ofList ((quoted text).toList.take shownLength)
  | .tooLong digits =>
      s!"Exceeds the limit ({digitLimit} digits) for integer string conversion: value has {digits} digits; use sys.set_int_max_str_digits() to increase the limit"

/-- An integer has more digits than are written. -/
structure Unwritable where
deriving DecidableEq, Repr

/-- The wording of the fault. -/
def Unwritable.message (_ : Unwritable) : String :=
  s!"Exceeds the limit ({digitLimit} digits) for integer string conversion; use sys.set_int_max_str_digits() to increase the limit"

/-- The integer has no more digits than are written. -/
def isWritable (n : Int) : Bool := n.natAbs < Nat.pow 10 digitLimit

/-- The text of an integer. -/
def written (n : Int) : Except Unwritable String :=
  if isWritable n then .ok (toString n) else .error {}

theorem written_eq_ok {n : Int} {text : String} :
    written n = .ok text ↔ isWritable n = true ∧ toString n = text := by
  unfold written
  cases isWritable n <;> simp

/-- Splits a leading sign off: `true` for a minus. -/
def splitSign : List Char → Bool × List Char
  | '-' :: rest => (true, rest)
  | '+' :: rest => (false, rest)
  | rest => (false, rest)

/-- The number with the given sign and size. -/
def signed (negative : Bool) (size : Nat) : Int :=
  if negative then -(size : Int) else (size : Int)

/-- The text is, up to blanks at both ends, an optional sign and one or more digits. -/
def isIntegerShaped (text : List Char) : Bool :=
  let digits := (splitSign (trim text)).2
  !digits.isEmpty && digits.all isDigit

/-- Reads an integer. The blanks around it may be any but the separators U+001C to
U+001F. -/
def readInteger (text : String) : Except IntegerFault Int :=
  let signAndRest := splitSign (text.toList.dropWhile isNumberBlank)
  let body := signAndRest.2.takeWhile fun c => isDigit c || c == '_'
  let rest := signAndRest.2.dropWhile fun c => isDigit c || c == '_'
  let groups := pieces (· == '_') body
  let digits := groups.flatten
  if groups.any List.isEmpty then .error (.malformed text)
  else if digits.length > digitLimit then .error (.tooLong digits.length)
  else if !rest.all isNumberBlank then .error (.malformed text)
  else .ok (signed signAndRest.1 (digitsValue digits))

end SeamLint.Number
