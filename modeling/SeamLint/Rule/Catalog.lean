import SeamLint.Rule.External
import SeamLint.Rule.Members
import SeamLint.Rule.Registry
import SeamLint.Rule.StaticAccess
import SeamLint.Rule.Wiring

set_option autoImplicit false

/-! # The catalogue of rules

All rules in the order of their ids.
-/

namespace SeamLint.Rule

open SeamLint.Data SeamLint.Finding

/-- All rules, by id. -/
def catalog : List Rule :=
  [directInstantiation, concreteParameter, serviceLocator, staticCall, clockRead,
   guidCreation, environmentVariable, staticProperty, nonVirtualMethod, largePrivateMethod,
   staticMutableField, ambientContext, fileSystemAccess, httpClientCreation, databaseAccess,
   processStart, sharedRandom, highComplexity]

/-- The facts about all rules, by id. -/
def descriptors : List Descriptor := catalog.map Rule.descriptor

/-- The facts about the rule with an id. -/
def descriptor? (id : String) : Option Descriptor := descriptors.find? fun d => d.id == id

/-- The rule with an id. -/
def rule? (id : String) : Option Rule := catalog.find? fun r => r.id == id

/-- The active rules, by id. -/
def activeRules (enabled disabled : List Key) : List Rule :=
  catalog.filter fun r => isActive enabled disabled r.id r.descriptor.enabledByDefault

/-- The active rules under two configuration values. -/
def selectRules (enabled disabled : Value) : Except AccessFault (List Rule) := do
  let on ← idsOf enabled
  let off ← idsOf disabled
  return activeRules on off

end SeamLint.Rule
