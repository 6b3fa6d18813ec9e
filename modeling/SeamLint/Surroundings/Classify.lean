import SeamLint.Code.Tree
import SeamLint.Surroundings.Tables

set_option autoImplicit false

/-! # The surroundings of a node

`classify` walks from a node to the root once and collects the tags of everything it meets.
Classes and records, methods, and functions handed to a registration call each give tags of
their own. A field gives its tag only if no other member stands between it and the node,
so the walk remembers whether it has met a member.
-/

namespace SeamLint.Surroundings

open SeamLint.Code

/-! ## Calls -/

/-- The member access that an invocation calls through. -/
def memberCallee (t : Tree) (invocation : Node) : Except Fault (Option Node) := do
  return (← t.firstChild invocation).filter fun callee => callee.kind = .memberAccess

/-- The name of the member that an invocation calls. -/
def invokedMember (t : Tree) (invocation : Node) : Except Fault (Option String) := do
  return (← memberCallee t invocation).bind fun callee => callee.name

/-- The parent of a node, if it is of the given kind. -/
def parentOfKind (t : Tree) (kind : Kind) (n : Node) : Except Fault (Option Node) := do
  return (← t.parent n).filter fun owner => owner.kind = kind

/-- A method of this name registers what it is given. -/
def Tables.registers (tables : Tables) (method : String) : Bool :=
  tables.registrationStarts.any (Text.startsWith · method) ||
    tables.registrationMethods.contains method

/-- The node is an argument of a call that registers what it is given. -/
def isRegistrationArgument (tables : Tables) (t : Tree) (n : Node) : Except Fault Bool := do
  let some argument ← parentOfKind t .argument n | return false
  let some invocation ← parentOfKind t .invocation argument | return false
  let some method ← invokedMember t invocation | return false
  return tables.registers method

/-! ## What a declaration tells -/

/-- The tags that the name of a class or record gives. -/
def Tables.classTags (tables : Tables) (name : String) : List Tag :=
  (if tables.compositionRootTypes.contains name then [Tag.compositionRoot] else []) ++
  (if tables.dataAccessEnds.any (Text.endsWith · name) ||
      tables.dataAccessParts.any (Text.contains · name) then [Tag.dataAccessClass] else []) ++
  (if tables.httpFactoryParts.any (Text.contains · name) then [Tag.httpClientFactoryClass]
    else []) ++
  (if tables.testStarts.any (Text.startsWith · name) ||
      tables.testEnds.any (Text.endsWith · name) then [Tag.testClass] else [])

/-- The tags that the name of a method gives. -/
def Tables.methodTags (tables : Tables) (name : String) : List Tag :=
  (if tables.compositionRootMethods.contains name then [Tag.compositionRoot] else []) ++
  (if tables.httpFactoryMethods.contains name then [Tag.httpClientFactoryClass] else [])

/-- The tags that a field gives. -/
def Tables.fieldTags (tables : Tables) (f : Facts) : List Tag :=
  if f.hasModifier tables.sharedModifier && f.hasModifier tables.assignOnceModifier then
    [Tag.staticReadonlyFieldInit]
  else []

/-- A member of a type: what it holds is not part of the initializer of a field outside
it. -/
def isMember : Kind → Bool
  | .method | .constructor | .property | .field => true
  | _ => false

/-- The tags that one node on the way to the root gives; `inMember` tells that a member has
been met before it. -/
def tagsOf (tables : Tables) (t : Tree) (inMember : Bool) (n : Node) :
    Except Fault (List Tag) :=
  match n.kind with
  | .classDeclaration | .recordDeclaration => .ok (tables.classTags (n.name.getD ""))
  | .method => .ok (tables.methodTags (n.name.getD ""))
  | .field => .ok (if inMember then [] else tables.fieldTags n.toFacts)
  | .lambda | .anonymousMethod => do
      return if ← isRegistrationArgument tables t n then [Tag.factoryDelegate] else []
  | _ => .ok []

/-- The tags that the nodes on the way to the root give. -/
def collectTags (tables : Tables) (t : Tree) : Bool → List Node → Except Fault (List Tag)
  | _, [] => .ok []
  | inMember, n :: rest => do
      let first ← tagsOf tables t inMember n
      let others ← collectTags tables t (inMember || isMember n.kind) rest
      return first ++ others

/-- What is special about the place of a node. A tag may be listed more than once. -/
def classify (tables : Tables) (t : Tree) (n : Node) : Except Fault (List Tag) := do
  collectTags tables t false (← t.ancestors n)

end SeamLint.Surroundings
