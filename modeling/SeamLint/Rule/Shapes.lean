import SeamLint.Rule.Basic

set_option autoImplicit false

/-! # Shapes that rules look for

The first child of an invocation is what it calls, usually a member access, whose own first
child is the receiver. An object creation describes the constructed type in its symbol. A
field carries the modifiers, and each variable declarator below it names one variable.
-/

namespace SeamLint.Rule

open SeamLint.Code SeamLint.Surroundings

/-! ## Types -/

/-- The root namespaces of the platform. -/
def platformNamespaces : List String := ["System", "Microsoft"]

/-- The type belongs to the platform: it is in one of its namespaces. -/
def isPlatformType (typeName : String) : Bool :=
  platformNamespaces.any fun root => typeName == root || Text.startsWith (root ++ ".") typeName

/-- The types that do not belong to the platform. -/
def userTypes (typeNames : List String) : List String :=
  typeNames.filter fun name => !isPlatformType name

/-- The described type can be replaced by something else: it has an interface or a base
class of the user's own. -/
def hasAbstraction (s : Symbol) : Bool :=
  !(userTypes s.interfaces).isEmpty || !(userTypes s.baseTypes).isEmpty

/-- A text that is given and not empty. -/
def proper? (text : Option String) : Option String := text.filter fun s => !s.isEmpty

/-! ## Symbols -/

/-- The symbol is one of the members of a type. -/
def isMemberOf (symbol : Option Symbol) (typeName : String) (members : List String) : Bool :=
  match symbol with
  | some s => s.containingType == some typeName && members.contains s.name
  | none => false

/-- Members under the types that have them. -/
abbrev MemberTable := List (String × List String)

/-- The symbol is a static property that the table lists. -/
def isListedProperty (table : MemberTable) (s : Symbol) : Bool :=
  s.kind == "property" && s.isStatic &&
    table.any fun entry => entry.1 == s.containingType.getD "" && entry.2.contains s.name

/-- A member behind the name of its type; a type that is not known is written `None`. -/
def qualifiedMember (s : Symbol) : String :=
  s.containingTypeName.getD "None" ++ "." ++ s.name

/-- The node reads the static property of this name. -/
def isStaticProperty (n : Node) (name : String) : Bool :=
  n.kind = .memberAccess &&
    match n.symbol with
    | some s => s.kind == "property" && s.isStatic && s.name == name
    | none => false

/-- The type that an object creation constructs. -/
def constructedType (n : Node) : Option String := n.symbol.bind Symbol.containingType

/-! ## Findings -/

/-- An argument for a message. -/
def textArgument (s : String) : Finding.Argument := .text s

/-- The name of a node, or else of its symbol. -/
def nameOr (n : Node) (fallback : String) : String := n.properName?.getD fallback

end SeamLint.Rule
