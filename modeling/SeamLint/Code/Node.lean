import SeamLint.Code.Kind
import SeamLint.Number.Integer
import SeamLint.Text.Basic

set_option autoImplicit false

/-! # Nodes of a source tree

A node has a kind and the facts that the front-end reports about it: its place, its name,
its modifiers and what its name resolves to. Links to other nodes are indices into the tree
that holds the node.
-/

namespace SeamLint.Code

/-! ## Places -/

/-- A range of lines and columns, both counted from one; all zero means unknown. -/
structure Span where
  startLine : Int := 0
  startColumn : Int := 0
  endLine : Int := 0
  endColumn : Int := 0
deriving DecidableEq, Repr, Inhabited

/-- The number of lines that a span touches. -/
def Span.lineCount (s : Span) : Int := s.endLine - s.startLine + 1

/-- A span as `line:column-line:column`. -/
def Span.written (s : Span) : Except Number.Unwritable String := do
  let startLine ← Number.written s.startLine
  let startColumn ← Number.written s.startColumn
  let endLine ← Number.written s.endLine
  let endColumn ← Number.written s.endColumn
  return s!"{startLine}:{startColumn}-{endLine}:{endColumn}"

/-! ## Symbols -/

/-- What a name in the source resolves to.

For a member, `containingType` is the type that declares it. For a constructor call it is
the constructed type, which `baseTypes` and `interfaces` describe. For a parameter,
`typeName` and `typeKind` describe the declared type, and so do `isAbstract`, `baseTypes`
and `interfaces`. -/
structure Symbol where
  name : String
  kind : String := "method"
  containingType : Option String := none
  namespaceName : Option String := none
  typeName : Option String := none
  typeKind : Option String := none
  isStatic : Bool := false
  isAbstract : Bool := false
  isExtern : Bool := false
  implementsInterface : Bool := false
  baseTypes : List String := []
  interfaces : List String := []
deriving DecidableEq, Repr, Inhabited

/-- The containing type without its namespace. -/
def Symbol.containingTypeName (s : Symbol) : Option String :=
  s.containingType.map Text.lastName

/-- The namespace of the containing type; the global namespace is the empty text. -/
def Symbol.containingNamespace (s : Symbol) : String :=
  match s.namespaceName with
  | some name => name
  | none => (s.containingType.bind Text.qualifier?).getD ""

/-- The described type has `typeName` among its bases or interfaces. -/
def Symbol.derivesFrom (s : Symbol) (typeName : String) : Bool :=
  s.baseTypes.contains typeName || s.interfaces.contains typeName

/-! ## Nodes -/

/-- What is known about a node apart from its place in the tree. -/
structure Facts where
  kind : Kind
  span : Span := {}
  name : Option String := none
  nameSpan : Option Span := none
  operator : Option String := none
  modifiers : List String := []
  isDiscard : Bool := false
  symbol : Option Symbol := none
deriving DecidableEq, Repr, Inhabited

/-- A node of a tree: its facts, its index, and the indices of its parent and children. -/
structure Node extends Facts where
  index : Nat
  parent : Option Nat := none
  children : List Nat := []
deriving DecidableEq, Repr, Inhabited

/-- The span of the declared name, or else of the whole node. -/
def Facts.identifierSpan (f : Facts) : Span := f.nameSpan.getD f.span

/-- The node carries the modifier. -/
def Facts.hasModifier (f : Facts) (modifier : String) : Bool := f.modifiers.contains modifier

/-- The name of a node that has one and whose name is not empty. -/
def Facts.properName? (f : Facts) : Option String :=
  f.name.filter fun name => !name.isEmpty

end SeamLint.Code
