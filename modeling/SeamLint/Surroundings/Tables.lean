set_option autoImplicit false

/-! # Names that mark a place

Some places in a program are expected to create or look up their dependencies themselves.
They are told by the names of the declarations around them; the tables hold these names.
All comparisons are exact.
-/

namespace SeamLint.Surroundings

/-- What is special about a place. -/
inductive Tag where
  | compositionRoot
  | factoryDelegate
  | dataAccessClass
  | httpClientFactoryClass
  | testClass
  | staticReadonlyFieldInit
deriving DecidableEq, Repr

/-- The name of a tag. -/
def Tag.name : Tag → String
  | .compositionRoot => "composition_root"
  | .factoryDelegate => "factory_delegate"
  | .dataAccessClass => "data_access_class"
  | .httpClientFactoryClass => "http_client_factory_class"
  | .testClass => "test_class"
  | .staticReadonlyFieldInit => "static_readonly_field_init"

/-- All tags, by name. -/
def Tag.all : List Tag :=
  [.compositionRoot, .dataAccessClass, .factoryDelegate, .httpClientFactoryClass,
   .staticReadonlyFieldInit, .testClass]

/-- The names and parts of names that are recognised. -/
structure Tables where
  compositionRootTypes : List String :=
    ["Startup", "Program", "CompositionRoot", "ServiceCollectionExtensions",
     "DependencyInjectionExtensions"]
  compositionRootMethods : List String :=
    ["ConfigureServices", "AddServices", "RegisterServices", "Configure",
     "ConfigureContainer"]
  registrationStarts : List String := ["Add"]
  registrationMethods : List String := ["Register", "RegisterType", "RegisterInstance"]
  dataAccessEnds : List String := ["Repository", "DataAccess"]
  dataAccessParts : List String := ["DbContext", "ConnectionFactory", "ConnectionPool"]
  httpFactoryParts : List String := ["Factory", "HttpClient"]
  httpFactoryMethods : List String := ["CreateClient", "CreateHttpClient", "Build"]
  testStarts : List String := ["Test"]
  testEnds : List String := ["Tests", "Test"]
  sharedModifier : String := "static"
  assignOnceModifier : String := "readonly"
deriving Repr, Inhabited

end SeamLint.Surroundings
