import SeamLint.Rule.Shapes

set_option autoImplicit false

/-! # Rules about static access

Code that reaches straight into static members depends on clocks, generators, the
environment and other state that a test cannot replace.
-/

namespace SeamLint.Rule

open SeamLint.Code SeamLint.Surroundings

/-! ## Any static method -/

/-- Types whose static methods only compute. -/
def pureTypes : List String := ["System.IO.Path"]

/-- The facts about `staticCall`. -/
def staticCallDescriptor : Descriptor where
  id := "SEAM004"
  title := "Static method call creates untestable dependency"
  template := [.text "Static method '", .slot 0, .text ".", .slot 1,
    .text "' creates a dependency that cannot be easily substituted for testing"]
  category := .staticDependencies
  severity := .info
  enabledByDefault := false
  description := "Calls to static methods like File.ReadAllText, Console.WriteLine create hard dependencies. Consider wrapping in an abstraction."

/-- Finds calls of static methods. -/
def staticCall : Rule where
  descriptor := staticCallDescriptor
  kinds := [.invocation]
  evaluate context n := do
    let some symbol := n.symbol | return none
    if symbol.kind != "method" || !symbol.isStatic then return none
    let some _ ← memberCallee context.tree n | return none
    let some typeName := proper? symbol.containingType | return none
    if pureTypes.contains typeName then return none
    let settings ← context.settings
    if settings.isTypeExcluded (some typeName) ||
        settings.isMethodExcluded (some typeName) symbol.name ||
        settings.isNamespaceExcluded symbol.containingNamespace then
      return none
    return some (staticCallDescriptor.found context n.span
      [textArgument (Text.lastName typeName), textArgument symbol.name])

/-! ## Clocks -/

/-- Properties that read the clock. -/
def clockProperties : MemberTable :=
  [("System.DateTime", ["Now", "UtcNow", "Today"]), ("System.DateTimeOffset", ["Now", "UtcNow"])]

/-- The type of replaceable clocks. -/
def timeProvider : String := "System.TimeProvider"

/-- Methods that read a replaceable clock. -/
def timeProviderMethods : List String := ["GetUtcNow", "GetLocalNow"]

/-- The facts about `clockRead`. -/
def clockReadDescriptor : Descriptor where
  id := "SEAM005"
  title := "DateTime.Now/UtcNow creates non-deterministic dependency"
  template := [.text "'", .slot 0,
    .text "' creates a non-deterministic dependency that makes testing difficult"]
  category := .staticDependencies
  severity := .info
  description := "Using DateTime.Now or DateTime.UtcNow directly makes code non-deterministic and hard to test. Consider injecting ITimeProvider or TimeProvider (.NET 8+)."

/-- The clock property that a member access reads. -/
def clockProperty (context : Context) (n : Node) : Except Stop (Option Finding) := do
  let some symbol := n.symbol | return none
  if !isListedProperty clockProperties symbol then return none
  if ← context.excludesTypeOf (some symbol) then return none
  return some (clockReadDescriptor.found context n.span [textArgument (qualifiedMember symbol)])

/-- The system clock that an invocation reads. -/
def systemClock (context : Context) (n : Node) : Except Stop (Option Finding) := do
  if !isMemberOf n.symbol timeProvider timeProviderMethods then return none
  let some symbol := n.symbol | return none
  let some access ← memberCallee context.tree n | return none
  let some receiver ← context.tree.firstChild access | return none
  if !isStaticProperty receiver "System" then return none
  if ← context.excludesTypeOf (some symbol) then return none
  return some (clockReadDescriptor.found context n.span
    [textArgument s!"TimeProvider.System.{symbol.name}()"])

/-- Finds reads of the clock. -/
def clockRead : Rule where
  descriptor := clockReadDescriptor
  kinds := [.memberAccess, .invocation]
  evaluate context n :=
    if n.kind = .memberAccess then clockProperty context n else systemClock context n

/-! ## Generators -/

/-- The type of unique ids. -/
def guidType : String := "System.Guid"

/-- Methods that make a new id. -/
def guidFactories : List String := ["NewGuid", "CreateVersion7", "CreateVersion8"]

/-- The facts about `guidCreation`. -/
def guidCreationDescriptor : Descriptor where
  id := "SEAM006"
  title := "Guid.NewGuid creates non-deterministic dependency"
  template := [.text "Guid.NewGuid() creates a non-deterministic dependency that makes testing difficult"]
  category := .staticDependencies
  severity := .info
  description := "Using Guid.NewGuid() directly makes code non-deterministic and hard to test. Consider injecting an IGuidGenerator abstraction."

/-- Finds new ids. -/
def guidCreation : Rule where
  descriptor := guidCreationDescriptor
  kinds := [.invocation]
  evaluate context n := do
    if !isMemberOf n.symbol guidType guidFactories then return none
    let some symbol := n.symbol | return none
    if !symbol.isStatic then return none
    if ← context.excludesTypeOf (some symbol) then return none
    return some (guidCreationDescriptor.found context n.span [])

/-- The type of random generators. -/
def randomType : String := "System.Random"

/-- The node reads the shared random generator. -/
def isSharedRandom (n : Node) : Bool :=
  isStaticProperty n "Shared" && n.symbol.any fun s => s.containingType == some randomType

/-- The facts about `sharedRandom`. -/
def sharedRandomDescriptor : Descriptor where
  id := "SEAM019"
  title := "Random.Shared creates non-deterministic dependency"
  template := [.text "Random.Shared creates non-deterministic behavior that makes testing difficult"]
  category := .staticDependencies
  severity := .info
  description := "Using Random.Shared directly makes code non-deterministic and hard to test. Consider injecting a Random instance or using a seeded Random for predictable test behavior."

/-- Finds uses of the shared random generator. -/
def sharedRandom : Rule where
  descriptor := sharedRandomDescriptor
  kinds := [.invocation]
  evaluate context n := do
    let some symbol := n.symbol | return none
    if symbol.kind != "method" || symbol.containingType != some randomType then return none
    let some access ← memberCallee context.tree n | return none
    let some receiver ← context.tree.firstChild access | return none
    if !isSharedRandom receiver then return none
    if ← context.excludesTypeOf (some symbol) then return none
    return some (sharedRandomDescriptor.found context n.span [])

/-! ## The environment -/

/-- The type that gives access to the process environment. -/
def environmentType : String := "System.Environment"

/-- Methods on environment variables. -/
def environmentMethods : List String :=
  ["GetEnvironmentVariable", "GetEnvironmentVariables", "SetEnvironmentVariable",
   "ExpandEnvironmentVariables"]

/-- The facts about `environmentVariable`. -/
def environmentVariableDescriptor : Descriptor where
  id := "SEAM007"
  title := "Environment.GetEnvironmentVariable creates configuration dependency"
  template := [.text "Environment.GetEnvironmentVariable creates a hard dependency on environment configuration"]
  category := .staticDependencies
  severity := .info
  description := "Direct access to environment variables makes code dependent on runtime environment. Consider injecting IConfiguration."

/-- Finds uses of environment variables. -/
def environmentVariable : Rule where
  descriptor := environmentVariableDescriptor
  kinds := [.invocation]
  evaluate context n := do
    if !isMemberOf n.symbol environmentType environmentMethods then return none
    if ← context.excludesTypeOf n.symbol then return none
    return some (environmentVariableDescriptor.found context n.span [])

/-! ## Ambient properties -/

/-- Static properties that read the state of the machine, the thread or the process. -/
def machineProperties : MemberTable :=
  [("System.Environment",
      ["CurrentDirectory", "MachineName", "UserName", "UserDomainName", "ProcessorCount",
       "TickCount", "OSVersion"]),
   ("System.Threading.Thread", ["CurrentThread"]),
   ("System.Globalization.CultureInfo", ["CurrentCulture", "CurrentUICulture"]),
   ("System.Configuration.ConfigurationManager", ["AppSettings", "ConnectionStrings"])]

/-- The facts about `staticProperty`. -/
def staticPropertyDescriptor : Descriptor where
  id := "SEAM008"
  title := "Static property access creates untestable dependency"
  template := [.text "Static property '", .slot 0, .text ".", .slot 1,
    .text "' creates a dependency that cannot be easily substituted for testing"]
  category := .staticDependencies
  severity := .info
  enabledByDefault := false
  description := "Static properties like Environment.MachineName or CultureInfo.CurrentCulture read ambient state. Consider injecting the value or an abstraction that supplies it."

/-- Finds reads of machine properties. -/
def staticProperty : Rule where
  descriptor := staticPropertyDescriptor
  kinds := [.memberAccess]
  evaluate context n := do
    let some symbol := n.symbol | return none
    if !isListedProperty machineProperties symbol then return none
    if ← context.excludesTypeOf (some symbol) then return none
    return some (staticPropertyDescriptor.found context n.span
      [textArgument (symbol.containingTypeName.getD ""), textArgument symbol.name])

/-- Static properties that hand out a current context. -/
def contextProperties : MemberTable :=
  [("System.Threading.Thread", ["CurrentThread", "CurrentPrincipal"]),
   ("System.Security.Claims.ClaimsPrincipal", ["Current"]),
   ("System.Threading.SynchronizationContext", ["Current"])]

/-- The facts about `ambientContext`. -/
def ambientContextDescriptor : Descriptor where
  id := "SEAM014"
  title := "Ambient context creates hidden dependency"
  template := [.text "Ambient context '", .slot 0,
    .text "' creates a hidden dependency that is difficult to control in tests"]
  category := .globalState
  severity := .warning
  description := "Ambient contexts like HttpContext.Current create hidden dependencies that are difficult to set up in tests. Consider injecting IHttpContextAccessor instead."

/-- Finds reads of a current context. -/
def ambientContext : Rule where
  descriptor := ambientContextDescriptor
  kinds := [.memberAccess]
  evaluate context n := do
    let some symbol := n.symbol | return none
    if !isListedProperty contextProperties symbol then return none
    if ← context.excludesTypeOf (some symbol) then return none
    return some (ambientContextDescriptor.found context n.span
      [textArgument (qualifiedMember symbol)])

end SeamLint.Rule
