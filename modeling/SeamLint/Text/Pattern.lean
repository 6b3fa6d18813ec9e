set_option autoImplicit false

/-! # File patterns

In a pattern, `*` stands for any run of characters, `?` for any one character and `[...]`
for one character of a set; everything else stands for itself. There is no escape, and `/`
is a character like any other. A `[` without a closing `]` stands for itself.

A set is negated by a leading `!`. A hyphen between two characters makes a range of them.
Which hyphens do so is decided from the left: after a hyphen, the next one that counts is
at least three characters on. A range whose ends are in the wrong order is left out
together with its ends, and what stood on both sides of it is joined.
-/

namespace SeamLint.Text

/-- A part of a pattern. -/
inductive Glob where
  /-- Any run of characters. -/
  | run
  /-- Any one character. -/
  | any
  /-- This character. -/
  | one (c : Char)
  /-- One character in one of the ranges, or in none of them if `negated`. -/
  | set (negated : Bool) (ranges : List (Char × Char))
deriving DecidableEq, Repr

/-! ## Sets -/

/-- The pieces of the inside of a set between the hyphens that make ranges. `skip` more
characters are kept before a hyphen counts; `piece` holds the characters of the current
piece, newest first. -/
def hyphenPieces : Nat → List Char → List Char → List (List Char)
  | _, piece, [] => [piece.reverse]
  | 0, piece, c :: cs =>
      if c == '-' then piece.reverse :: hyphenPieces 2 [] cs
      else hyphenPieces 0 (c :: piece) cs
  | skip + 1, piece, c :: cs => hyphenPieces skip (c :: piece) cs

/-- A hyphen at the end of a set makes no range. -/
def keepLastHyphen : List (List Char) → List (List Char)
  | [piece, []] => [piece ++ ['-']]
  | piece :: rest => piece :: keepLastHyphen rest
  | [] => []

/-- Leaves out the range between two pieces if its ends are in the wrong order. -/
def joinPieces (left : List Char) (rest : List (List Char)) : List (List Char) :=
  match rest with
  | [] => [left]
  | right :: others =>
      match left.getLast?, right.head? with
      | some a, some b =>
          if a > b then (left.dropLast ++ right.tail) :: others else left :: rest
      | _, _ => left :: rest

/-- Leaves out all ranges in the wrong order, from the right. -/
def dropEmptyRanges : List (List Char) → List (List Char)
  | [] => []
  | piece :: rest => joinPieces piece (dropEmptyRanges rest)

/-- A character as a range of its own. -/
def single (c : Char) : Char × Char := (c, c)

/-- The ranges that the pieces describe: the ends of neighbouring pieces make a range, all
other characters stand for themselves. `first` tells that the first character of the first
piece does not end a range. -/
def pieceRanges : Bool → List (List Char) → List (Char × Char)
  | _, [] => []
  | first, [piece] => (if first then piece else piece.tail).map single
  | first, piece :: rest =>
      let inner := if first then piece.dropLast else piece.dropLast.tail
      match piece.getLast?, rest.head?.bind List.head? with
      | some a, some b => inner.map single ++ (a, b) :: pieceRanges false rest
      | _, _ => inner.map single ++ pieceRanges false rest

/-- The set that the pieces describe. -/
def setOfPieces (pieces : List (List Char)) : Glob :=
  match pieces with
  | ('!' :: inside) :: rest => .set true (pieceRanges true (inside :: rest))
  | _ => .set false (pieceRanges true pieces)

/-- The set with the given inside. -/
def setOf (inside : List Char) : Glob :=
  let skip := match inside with
    | '!' :: _ => 2
    | _ => 1
  setOfPieces (dropEmptyRanges (keepLastHyphen (hyphenPieces skip [] inside)))

/-- Splits the text after a `[` into the inside of the set and what follows its `]`. A `]`
that comes first, or first after a `!`, belongs to the set. -/
def splitSet? (cs : List Char) : Option (List Char × List Char) :=
  let head := match cs with
    | '!' :: ']' :: _ => 2
    | '!' :: _ => 1
    | ']' :: _ => 1
    | _ => 0
  let inside := (cs.drop head).takeWhile (· != ']')
  match (cs.drop head).dropWhile (· != ']') with
  | [] => none
  | _ :: rest => some (cs.take head ++ inside, rest)

/-! ## Patterns -/

/-- The parts of a pattern, at most `fuel` of them. -/
def globFrom : Nat → List Char → List Glob
  | 0, _ => []
  | _ + 1, [] => []
  | fuel + 1, c :: cs =>
      if c == '*' then .run :: globFrom fuel cs
      else if c == '?' then .any :: globFrom fuel cs
      else if c == '[' then
        match splitSet? cs with
        | some (inside, rest) => setOf inside :: globFrom fuel rest
        | none => .one '[' :: globFrom fuel cs
      else .one c :: globFrom fuel cs

/-- The parts of a pattern. Every part takes at least one character. -/
def glob (pattern : List Char) : List Glob := globFrom pattern.length pattern

/-- One character is what a part stands for. A run is no single character. -/
def Glob.accepts (c : Char) : Glob → Bool
  | .run => false
  | .any => true
  | .one d => c == d
  | .set negated ranges => (ranges.any fun range => range.1 ≤ c && c ≤ range.2) != negated

/-- Some end of the text satisfies `p`, the whole text and the empty one included. -/
def someEnd (p : List Char → Bool) : List Char → Bool
  | [] => p []
  | c :: cs => p (c :: cs) || someEnd p cs

/-- The parts describe the whole text. -/
def matchesGlob : List Glob → List Char → Bool
  | [], cs => cs.isEmpty
  | .run :: parts, cs => someEnd (matchesGlob parts) cs
  | _ :: _, [] => false
  | part :: parts, c :: cs => part.accepts c && matchesGlob parts cs

/-- The pattern describes the whole text. -/
def matchesPattern (pattern text : String) : Bool :=
  matchesGlob (glob pattern.toList) text.toList

end SeamLint.Text
