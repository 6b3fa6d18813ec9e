import SeamLint.Rule.Shapes

set_option autoImplicit false

/-! # Rules about members

Members that a test cannot override, reach or reset: methods that are not virtual, large
private methods, methods with many branches, and static fields that change.
-/

namespace SeamLint.Rule

open SeamLint.Code SeamLint.Surroundings

/-! ## Methods that cannot be overridden -/

/-- Modifiers that make a method overridable already or rule overriding out. -/
def overrideModifiers : List String :=
  ["virtual", "abstract", "override", "static", "sealed", "extern"]

/-- Methods that nobody overrides for a test. -/
def exemptMethods : List String := ["Dispose", "DisposeAsync", "ToString", "GetHashCode", "Equals"]

/-- The least number of statements of a method that is worth overriding. -/
def minStatements : Nat := 2

/-- A public class or record that can have subclasses. -/
def isInheritable (n : Node) : Bool :=
  (n.kind = .classDeclaration || n.kind = .recordDeclaration) && n.hasModifier "public" &&
    !n.hasModifier "sealed" && !n.hasModifier "static"

/-- The facts about `nonVirtualMethod`. -/
def nonVirtualMethodDescriptor : Descriptor where
  id := "SEAM010"
  title := "Non-virtual method prevents override seam"
  template := [.text "Non-virtual method '", .slot 0,
    .text "' cannot be overridden for testing purposes"]
  category := .inheritanceBlockers
  severity := .info
  enabledByDefault := false
  description := "Public methods that are not virtual cannot be overridden in a test subclass. Consider making the method virtual or extracting an interface."

/-- Finds public methods of inheritable types that are not virtual. A method that implements
an interface can be replaced through it, and a method of one statement is not worth it. -/
def nonVirtualMethod : Rule where
  descriptor := nonVirtualMethodDescriptor
  kinds := [.method]
  evaluate context n := do
    if !n.hasModifier "public" || n.modifiers.any overrideModifiers.contains then return none
    let some symbol := n.symbol | return none
    if symbol.implementsInterface || symbol.isAbstract || symbol.isStatic then return none
    if n.name.any exemptMethods.contains then return none
    let some body ← context.tree.body n | return none
    if body.kind ≠ .block || body.children.length < minStatements then return none
    let some owner ← context.tree.enclosing n Kind.isTypeDeclaration | return none
    if !isInheritable owner then return none
    let settings ← context.settings
    if settings.isTypeExcluded symbol.containingType ||
        settings.isMethodExcluded symbol.containingType symbol.name then
      return none
    return some (nonVirtualMethodDescriptor.found context n.identifierSpan
      [textArgument (nameOr n symbol.name)])

/-! ## Large private methods -/

/-- Modifiers that say who may call a method. -/
def accessModifiers : List String := ["public", "protected", "internal", "private"]

/-- The method is private; one without an access modifier is, too. -/
def isPrivate (f : Facts) : Bool :=
  f.hasModifier "private" || !f.modifiers.any accessModifiers.contains

/-- The threshold for the number of lines. -/
def lineThreshold : String := "complexity_threshold"

/-- The facts about `largePrivateMethod`. -/
def largePrivateMethodDescriptor : Descriptor where
  id := "SEAM011"
  title := "Complex private method should be extracted"
  template := [.text "Private method '", .slot 0, .text "' has ", .slot 1,
    .text " lines and should be extracted to a separate testable class"]
  category := .inheritanceBlockers
  severity := .info
  enabledByDefault := false
  description := "Large private methods contain logic that cannot be tested in isolation. Consider extracting the logic to a separate class that can be injected and tested independently."

/-- Finds private methods with more lines than the threshold. -/
def largePrivateMethod : Rule where
  descriptor := largePrivateMethodDescriptor
  kinds := [.method]
  thresholds := [(lineThreshold, 50)]
  evaluate context n := do
    if !isPrivate n.toFacts then return none
    let some body ← context.tree.body n | return none
    if body.kind ≠ .block then return none
    let threshold ← (← context.settings).threshold lineThreshold
    let lines := n.span.lineCount
    if lines ≤ threshold then return none
    return some (largePrivateMethodDescriptor.found context n.identifierSpan
      [textArgument (n.name.getD ""), .number lines])

/-! ## Static fields that change -/

/-- The type of texts. -/
def textTypes : List String := ["string", "System.String"]

/-- Namespaces of types that cannot change. -/
def immutableNamespaces : List String :=
  ["System.Collections.Immutable.", "System.Collections.Frozen."]

/-- Beginnings of the names of types that cannot change. -/
def immutableStarts : List String := ["Immutable", "IImmutable", "Frozen"]

/-- The name of a type without its arguments and its namespace. -/
def bareTypeName (typeName : String) : String :=
  String.ofList (Text.afterLast '.' (typeName.toList.takeWhile (· != '<')))

/-- Values of the type cannot change. -/
def isImmutableType (typeName : String) : Bool :=
  textTypes.contains typeName || immutableNamespaces.any (Text.startsWith · typeName) ||
    immutableStarts.any (Text.startsWith · (bareTypeName typeName))

/-- A field that is shared and can be assigned again. -/
def isSharedMutable (field : Facts) : Bool :=
  field.hasModifier "static" && !field.hasModifier "readonly" && !field.hasModifier "const"

/-- The facts about `staticMutableField`. -/
def staticMutableFieldDescriptor : Descriptor where
  id := "SEAM013"
  title := "Static mutable field creates shared state"
  template := [.text "Static mutable field '", .slot 0,
    .text "' creates shared state that can cause test pollution"]
  category := .globalState
  severity := .warning
  description := "Static mutable fields create shared state that persists across tests and can cause unpredictable behavior. Consider converting to instance fields."

/-- Finds static fields whose value can change. -/
def staticMutableField : Rule where
  descriptor := staticMutableFieldDescriptor
  kinds := [.variableDeclarator]
  evaluate context n := do
    let some field ← parentOfKind context.tree .field n | return none
    if !isSharedMutable field.toFacts then return none
    let some symbol := n.symbol.or field.symbol | return none
    let some typeName := symbol.typeName | return none
    if isImmutableType typeName then return none
    if (← context.tags field).contains .testClass then return none
    if let some owner := proper? symbol.containingType then
      if (← context.settings).isTypeExcluded (some owner) then return none
    return some (staticMutableFieldDescriptor.found context n.identifierSpan
      [textArgument (n.name.getD "")])

/-! ## Methods with many branches -/

/-- The threshold for the complexity. -/
def complexityThreshold : String := "cyclomatic_complexity_threshold"

/-- The method has no code of its own to score. -/
def isAbstractOrExtern (f : Facts) : Bool :=
  f.hasModifier "abstract" || f.hasModifier "extern" ||
    f.symbol.any fun s => s.isAbstract || s.isExtern

/-- The node is to be scored: a declared method needs a symbol and code of its own. -/
def isScored (f : Facts) : Bool :=
  f.kind ≠ .method || (f.symbol.isSome && !isAbstractOrExtern f)

/-- The facts about `highComplexity`. -/
def highComplexityDescriptor : Descriptor where
  id := "SEAM020"
  title := "Method has high cyclomatic complexity"
  template := [.text "Method '", .slot 0, .text "' has cyclomatic complexity of ", .slot 1,
    .text " (threshold: ", .slot 2, .text ")"]
  category := .complexity
  severity := .warning
  description := "Methods with high cyclomatic complexity are difficult to test and maintain. Consider breaking down into smaller methods."

/-- Finds methods, local functions and accessors whose complexity is above the threshold. -/
def highComplexity : Rule where
  descriptor := highComplexityDescriptor
  kinds := [.method, .localFunction, .accessor]
  thresholds := [(complexityThreshold, 25)]
  evaluate context n := do
    let some _ ← context.tree.body n | return none
    if !isScored n.toFacts then return none
    let threshold ← (← context.settings).threshold complexityThreshold
    let score ← Measure.complexityAt context.tree n
    if (score : Int) ≤ threshold then return none
    let name ← Measure.displayName context.tree n
    return some (highComplexityDescriptor.found context n.identifierSpan
      [textArgument name, .number score, .number threshold])

end SeamLint.Rule
