import SeamLint.Rule.Shapes

set_option autoImplicit false

/-! # Rules about wiring

Code that creates its services itself, takes concrete ones, or asks a locator for them
leaves a test no place to hand in others.
-/

namespace SeamLint.Rule

open SeamLint.Code SeamLint.Surroundings

/-! ## Creating a service -/

/-- Names of types that are services. -/
def serviceEnds : List String :=
  ["Service", "Repository", "Manager", "Provider", "Client", "Gateway", "Handler",
   "Processor", "Store"]

/-- Places where creating a service is what the code is for. -/
def creationPlaces : List Tag :=
  [.compositionRoot, .factoryDelegate, .staticReadonlyFieldInit, .httpClientFactoryClass,
   .testClass]

/-- The base class of all exceptions. -/
def exceptionBase : String := "System.Exception"

/-- The described type is an exception, by its bases or by its name. -/
def isException (s : Symbol) : Bool :=
  s.baseTypes.contains exceptionBase ||
    Text.endsWith "Exception" (s.containingTypeName.getD "")

/-- The described type is named like a service. -/
def isNamedLikeService (s : Symbol) : Bool :=
  serviceEnds.any (Text.endsWith · (s.containingTypeName.getD ""))

/-- The described type, if creating it hides a service: it is the user's own, no exception,
and can be replaced or is named like a service. -/
def createdService? (s : Symbol) : Option String := do
  let typeName ← proper? s.containingType
  guard (!isPlatformType typeName && !isException s && (hasAbstraction s || isNamedLikeService s))
  return typeName

/-- The facts about `directInstantiation`. -/
def directInstantiationDescriptor : Descriptor where
  id := "SEAM001"
  title := "Direct instantiation of concrete type"
  template := [.text "Direct instantiation of '", .slot 0,
    .text "' creates a hard dependency that prevents seam injection"]
  category := .directDependencies
  severity := .info
  description := "Creating dependencies with 'new' inside a class hard-wires the implementation. Consider injecting the dependency through the constructor."

/-- Finds services that are created where they are used. -/
def directInstantiation : Rule where
  descriptor := directInstantiationDescriptor
  kinds := [.objectCreation]
  evaluate context n := do
    let some symbol := n.symbol | return none
    let some typeName := createdService? symbol | return none
    if (← context.tags n).any creationPlaces.contains then return none
    let settings ← context.settings
    if settings.isTypeExcluded (some typeName) ||
        settings.isNamespaceExcluded symbol.containingNamespace then
      return none
    return some (directInstantiationDescriptor.found context n.span
      [textArgument (Text.lastName typeName)])

/-! ## Taking a concrete service -/

/-- The concrete class that a parameter takes although it could take an abstraction. -/
def concreteClass? (s : Symbol) : Option String := do
  guard (s.typeKind == some "class" && !s.isAbstract)
  let typeName ← proper? s.typeName
  guard (typeName != "string" && !isPlatformType typeName && hasAbstraction s)
  return typeName

/-- The facts about `concreteParameter`. -/
def concreteParameterDescriptor : Descriptor where
  id := "SEAM002"
  title := "Concrete type in constructor parameter"
  template := [.text "Constructor parameter '", .slot 0, .text "' uses concrete type '", .slot 1,
    .text "' instead of an abstraction"]
  category := .directDependencies
  severity := .info
  enabledByDefault := false
  description := "Constructor parameters typed as concrete classes cannot be substituted in tests. Depend on the interface the class implements instead."

/-- Finds constructor parameters of a concrete class. -/
def concreteParameter : Rule where
  descriptor := concreteParameterDescriptor
  kinds := [.parameter]
  evaluate context n := do
    let some _ ← parentOfKind context.tree .constructor n | return none
    let some symbol := n.symbol | return none
    let some typeName := concreteClass? symbol | return none
    if (← context.settings).isTypeExcluded (some typeName) then return none
    return some (concreteParameterDescriptor.found context n.span
      [textArgument (nameOr n symbol.name), textArgument (Text.lastName typeName)])

/-! ## Asking a locator -/

/-- Types that hand out services by request. -/
def locatorTypes : List String :=
  ["ServiceLocator", "DependencyResolver", "CommonServiceLocator", "IServiceLocator"]

/-- Methods that hand out a service. -/
def locatorMethods : List String :=
  ["Resolve", "GetService", "GetInstance", "GetRequiredService", "ResolveOptional",
   "TryResolve"]

/-- A part of the names of service providers. -/
def providerPart : String := "ServiceProvider"

/-- Places where asking a service provider is what the code is for. -/
def providerPlaces : List Tag := [.compositionRoot, .factoryDelegate]

/-- The call asks a service provider outside the places where that is expected. -/
def asksProvider (context : Context) (n : Node) (s : Symbol) : Except Stop Bool := do
  if !Text.contains providerPart (s.containingType.getD "") then return false
  return !(← context.tags n).any providerPlaces.contains

/-- The call goes through the name of a locator type. -/
def hasLocatorReceiver (context : Context) (access : Node) : Except Stop Bool := do
  let some receiver ← context.tree.firstChild access | return false
  if receiver.kind ≠ .identifier then return false
  let some symbol := receiver.symbol | return false
  return symbol.kind == "type" && locatorTypes.contains symbol.name

/-- The facts about `serviceLocator`. -/
def serviceLocatorDescriptor : Descriptor where
  id := "SEAM003"
  title := "Service locator pattern usage"
  template := [.text "Service locator pattern hides dependencies and makes code harder to test"]
  category := .directDependencies
  severity := .warning
  description := "The service locator pattern hides dependencies, making them implicit rather than explicit. Consider using constructor injection instead."

/-- Finds calls that ask a locator for a service: on a locator type, on a service provider
outside the composition root, or through the name of a locator type. -/
def serviceLocator : Rule where
  descriptor := serviceLocatorDescriptor
  kinds := [.invocation]
  evaluate context n := do
    let some access ← memberCallee context.tree n | return none
    if !(access.name.any locatorMethods.contains) then return none
    let some symbol := n.symbol | return none
    if symbol.kind != "method" then return none
    if ← context.excludesTypeOf (some symbol) then return none
    let located ←
      if symbol.containingTypeName.any locatorTypes.contains then pure true
      else do
        if ← asksProvider context n symbol then pure true
        else hasLocatorReceiver context access
    return if located then some (serviceLocatorDescriptor.found context n.span []) else none

end SeamLint.Rule
