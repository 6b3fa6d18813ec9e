set_option autoImplicit false

/-! # Blank characters

The characters that Unicode counts as white space, together with the four separators
U+001C to U+001F. Entries of a list and the two ends of a number may be surrounded by
them.
-/

namespace SeamLint.Text

/-- White space of any script: the control characters from tab to carriage return, the
separators U+001C to U+001F, the next-line character and all spaces. -/
def isBlank (c : Char) : Bool :=
  let n := c.toNat
  (0x09 ≤ n && n ≤ 0x0d) || (0x1c ≤ n && n ≤ 0x20) || n == 0x85 || n == 0xa0 ||
    n == 0x1680 || (0x2000 ≤ n && n ≤ 0x200a) || n == 0x2028 || n == 0x2029 ||
    n == 0x202f || n == 0x205f || n == 0x3000

/-- A blank that is none of the separators U+001C to U+001F: the only kind that may stand
around the digits of a number that is read. -/
def isNumberBlank (c : Char) : Bool :=
  isBlank c && !(0x1c ≤ c.toNat && c.toNat ≤ 0x1f)

/-- `s` without the blanks at its end. -/
def trimEnd (s : List Char) : List Char := (s.reverse.dropWhile isBlank).reverse

/-- `s` without the blanks at both ends. -/
def trim (s : List Char) : List Char := trimEnd (s.dropWhile isBlank)

end SeamLint.Text
