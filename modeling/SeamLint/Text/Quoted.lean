import SeamLint.Text.Printable
import SeamLint.Text.Basic

set_option autoImplicit false

/-! # Quoted text

A text inside a message is written between quotes, with everything escaped that could be
taken for something else: the quote itself, the backslash, and characters that have no
visible form. Single quotes are used unless the text holds a single quote and no double
quote.
-/

namespace SeamLint.Text

/-- The single quote. -/
def singleQuote : Char := '\x27'

/-- The double quote. -/
def doubleQuote : Char := '\x22'

/-- The hexadecimal escape of a character: the shortest of the widths two, four and eight
that holds its code point. -/
def hexEscape (c : Char) : List Char :=
  let digits := Nat.toDigits 16 c.toNat
  if c.toNat < 0x100 then '\\' :: 'x' :: zeroPad 2 digits
  else if c.toNat < 0x10000 then '\\' :: 'u' :: zeroPad 4 digits
  else '\\' :: 'U' :: zeroPad 8 digits

/-- How one character is written between two `quote` characters. -/
def quotedChar (quote c : Char) : List Char :=
  if c = quote || c = '\\' then ['\\', c]
  else if c = '\n' then ['\\', 'n']
  else if c = '\r' then ['\\', 'r']
  else if c = '\t' then ['\\', 't']
  else if isPrintable c then [c]
  else hexEscape c

/-- The quote a text is written with. -/
def quoteFor (s : List Char) : Char :=
  if s.contains singleQuote && !s.contains doubleQuote then doubleQuote else singleQuote

/-- The text between quotes. -/
def quoted (s : String) : String :=
  let quote := quoteFor s.toList
  String.ofList (quote :: s.toList.flatMap (quotedChar quote) ++ [quote])

end SeamLint.Text
