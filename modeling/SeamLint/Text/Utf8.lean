import SeamLint.Text.Basic

set_option autoImplicit false

/-! # Bytes as text

Files are UTF-8. Reading stops at the first byte that cannot continue the text and tells
which bytes are at fault. Line breaks of all kinds become line feeds.
-/

namespace SeamLint.Text

/-! ## Decoding -/

/-- What is wrong with bytes that are no text. -/
inductive ByteDefect where
  | badStart
  | badContinuation
  | unexpectedEnd
deriving DecidableEq, Repr

/-- The wording of a defect. -/
def ByteDefect.message : ByteDefect → String
  | .badStart => "invalid start byte"
  | .badContinuation => "invalid continuation byte"
  | .unexpectedEnd => "unexpected end of data"

/-- Bytes that are no text: the byte at which the bad sequence begins, its first and its last
position, and what is wrong. -/
structure Utf8Fault where
  byte : Nat
  first : Nat
  last : Nat
  defect : ByteDefect
deriving DecidableEq, Repr

/-- Two hexadecimal digits. -/
def hexByte (byte : Nat) : String := String.ofList (zeroPad 2 (Nat.toDigits 16 byte))

/-- The wording of a fault. -/
def Utf8Fault.message (f : Utf8Fault) : String :=
  if f.first = f.last then
    s!"'utf-8' codec can't decode byte 0x{hexByte f.byte} in position {f.first}: {f.defect.message}"
  else
    s!"'utf-8' codec can't decode bytes in position {f.first}-{f.last}: {f.defect.message}"

/-- A character of which some bytes are still to come: where it began and with which byte,
the value so far, how many bytes are to come and between which bounds the next one lies. -/
structure Unfinished where
  position : Nat
  lead : Nat
  value : Nat
  missing : Nat
  low : Nat := 0x80
  high : Nat := 0xbf
deriving DecidableEq, Repr

/-- The character that a lead byte of more than one byte begins. The bounds of the second
byte leave out overlong forms, surrogates and what is too large. -/
def Unfinished.start? (position lead : Nat) : Option Unfinished :=
  if 0xc2 ≤ lead && lead ≤ 0xdf then some ⟨position, lead, lead - 0xc0, 1, 0x80, 0xbf⟩
  else if 0xe0 ≤ lead && lead ≤ 0xef then
    some ⟨position, lead, lead - 0xe0, 2, if lead = 0xe0 then 0xa0 else 0x80,
      if lead = 0xed then 0x9f else 0xbf⟩
  else if 0xf0 ≤ lead && lead ≤ 0xf4 then
    some ⟨position, lead, lead - 0xf0, 3, if lead = 0xf0 then 0x90 else 0x80,
      if lead = 0xf4 then 0x8f else 0xbf⟩
  else none

/-- The fault of a character that ends before `position`. -/
def Unfinished.fault (p : Unfinished) (position : Nat) (defect : ByteDefect) : Utf8Fault :=
  ⟨p.lead, p.position, position - 1, defect⟩

/-- Decodes the bytes from `position` on. -/
def decodeUtf8From (position : Nat) (pending : Option Unfinished) :
    List UInt8 → Except Utf8Fault (List Char)
  | [] =>
      match pending with
      | none => .ok []
      | some p => .error (p.fault position .unexpectedEnd)
  | b :: rest =>
      let byte := b.toNat
      match pending with
      | none =>
          if byte < 0x80 then do
            return Char.ofNat byte :: (← decodeUtf8From (position + 1) none rest)
          else
            match Unfinished.start? position byte with
            | some p => decodeUtf8From (position + 1) (some p) rest
            | none => .error ⟨byte, position, position, .badStart⟩
      | some p =>
          if p.low ≤ byte && byte ≤ p.high then
            let value := p.value * 64 + (byte - 0x80)
            if p.missing = 1 then do
              return Char.ofNat value :: (← decodeUtf8From (position + 1) none rest)
            else
              decodeUtf8From (position + 1)
                (some ⟨p.position, p.lead, value, p.missing - 1, 0x80, 0xbf⟩) rest
          else .error (p.fault position .badContinuation)

/-- Decodes bytes. -/
def decodeUtf8 (bytes : List UInt8) : Except Utf8Fault (List Char) := decodeUtf8From 0 none bytes

/-! ## Line breaks -/

/-- Every line break as a line feed: carriage returns, alone or before a line feed, too. -/
def lineFeeds : List Char → List Char
  | [] => []
  | '\r' :: rest => if rest.head? = some '\n' then lineFeeds rest else '\n' :: lineFeeds rest
  | c :: rest => c :: lineFeeds rest

end SeamLint.Text
