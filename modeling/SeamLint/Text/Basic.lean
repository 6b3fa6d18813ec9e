set_option autoImplicit false

/-! # Cutting and comparing text

Everything the library asks about a text is asked of its list of characters: does it begin
with a part, end with it, hold it, and where does it fall apart at a character. The
functions on `String` are these list functions between `String.toList` and
`String.ofList`, so that facts about lists carry over.
-/

namespace SeamLint.Text

/-! ## Parts of a text -/

/-- `s` begins with `part`. -/
def startsWith (part s : String) : Bool := part.toList.isPrefixOf s.toList

/-- `s` ends with `part`. -/
def endsWith (part s : String) : Bool := part.toList.isSuffixOf s.toList

/-- `part` occurs somewhere in the second list; the empty part occurs everywhere. -/
def occursIn (part : List Char) : List Char → Bool
  | [] => part.isEmpty
  | c :: cs => part.isPrefixOf (c :: cs) || occursIn part cs

/-- `part` occurs somewhere in `s`. -/
def contains (part s : String) : Bool := occursIn part.toList s.toList

/-! ## Order -/

/-- Compares lists of texts, first differing texts first; a list comes before its
extensions. -/
def compareTexts : List String → List String → Ordering
  | [], [] => .eq
  | [], _ :: _ => .lt
  | _ :: _, [] => .gt
  | a :: as, b :: bs => (compare a b).then (compareTexts as bs)

/-! ## Cutting at a character -/

/-- The characters after the last `c`, or all of them if there is no `c`. -/
def afterLast (c : Char) (s : List Char) : List Char :=
  (s.reverse.takeWhile (· != c)).reverse

/-- The characters before the last `c`, or `none` if there is no `c`. -/
def beforeLast? (c : Char) (s : List Char) : Option (List Char) :=
  match s.reverse.dropWhile (· != c) with
  | [] => none
  | _ :: rest => some rest.reverse

/-- The pieces between the characters that satisfy `p`: one more than there are such
characters, so that a text without any is its own single piece. -/
def pieces (p : Char → Bool) : List Char → List (List Char)
  | [] => [[]]
  | c :: cs =>
      if p c then [] :: pieces p cs
      else
        match pieces p cs with
        | [] => [[c]]
        | piece :: rest => (c :: piece) :: rest

/-- The last dot-separated part of a qualified name. -/
def lastName (name : String) : String := String.ofList (afterLast '.' name.toList)

/-- What stands before the last dot of a qualified name, if it has a dot. -/
def qualifier? (name : String) : Option String :=
  (beforeLast? '.' name.toList).map String.ofList

/-! ## Building text -/

/-- The parts with `separator` between neighbours. -/
def join (separator : String) (parts : List String) : String :=
  String.ofList (List.intercalate separator.toList (parts.map String.toList))

/-- Every `old` character replaced by `new`. -/
def replace (old new : Char) (s : String) : String :=
  String.ofList (s.toList.map fun c => if c = old then new else c)

/-- The letters `A` to `Z` in lower case, all other characters as they are. -/
def lower (s : String) : String := String.ofList (s.toList.map Char.toLower)

/-- `digits` filled up with zeros on the left to at least `width` characters. -/
def zeroPad (width : Nat) (digits : List Char) : List Char :=
  List.replicate (width - digits.length) '0' ++ digits

/-- `s` filled up with spaces on the right to at least `width` characters. -/
def padRight (width : Nat) (s : String) : String :=
  String.ofList (s.toList ++ List.replicate (width - s.length) ' ')

/-- `s` filled up with spaces on the left to at least `width` characters. -/
def padLeft (width : Nat) (s : String) : String :=
  String.ofList (List.replicate (width - s.length) ' ' ++ s.toList)

/-- `s` in the middle of `width` characters; of an odd number of spaces the right side
gets one more. -/
def padBoth (width : Nat) (s : String) : String :=
  let room := width - s.length
  String.ofList
    (List.replicate (room / 2) ' ' ++ s.toList ++ List.replicate (room - room / 2) ' ')

end SeamLint.Text
