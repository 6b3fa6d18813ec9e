import SeamLint.Text.Basic

set_option autoImplicit false

/-! # Paths

A path is a list of names that starts at the root of the file system or at the working
directory. Writing a path drops empty names and single dots, so that one path has one
written form; double dots stay, because what they mean depends on the files.
-/

namespace SeamLint.Files

open SeamLint.Text

/-- A path. -/
structure Path where
  absolute : Bool
  parts : List String
deriving DecidableEq, Repr, Inhabited

namespace Path

/-- The path that a text denotes. -/
def ofText (text : String) : Path where
  absolute := text.toList.head? == some '/'
  parts := ((pieces (· == '/') text.toList).map String.ofList).filter fun part =>
    !part.isEmpty && part != "."

/-- The written form of a path. -/
def text (p : Path) : String :=
  if p.absolute then "/" ++ join "/" p.parts
  else if p.parts.isEmpty then "."
  else join "/" p.parts

/-- The last name of a path. -/
def name (p : Path) : String := p.parts.getLast?.getD ""

/-- The ending of a file name from its last dot on. A dot at either end makes no ending. -/
def nameSuffix (name : List Char) : List Char :=
  match beforeLast? '.' name with
  | some (_ :: _) =>
      let ending := afterLast '.' name
      if ending.isEmpty then [] else '.' :: ending
  | _ => []

/-- The ending of the last name, in lower case. -/
def suffix (p : Path) : String := lower (String.ofList (nameSuffix p.name.toList))

/-- The path of something below a directory. -/
def below (p : Path) (parts : List String) : Path := { p with parts := p.parts ++ parts }

end Path

/-! ## Places in the file system -/

/-- Follows names from a place, going up at double dots. -/
def resolveParts (place : List String) (parts : List String) : List String :=
  parts.foldl (fun here part => if part = ".." then here.dropLast else here ++ [part]) place

/-- `a` is listed before `b`: names are compared one by one. -/
def precedes (a b : List String) : Bool := (compareTexts a b).isLE

end SeamLint.Files
