import SeamLint.Measure.Complexity
import SeamLint.Rule.Descriptor
import SeamLint.Settings.Resolver
import SeamLint.Surroundings.Classify

set_option autoImplicit false

/-! # Rules

A rule says which kinds of nodes it wants to see and judges one node at a time: it finds
something or not, or it fails. What it may consult is in its `Context`: the tree, the
tables of names, and its own settings in the scope of the tree, which are looked at only if
the judgement depends on them.
-/

namespace SeamLint.Rule

open SeamLint.Code SeamLint.Finding SeamLint.Settings SeamLint.Surroundings

/-- What goes wrong while a rule judges a node. -/
inductive Fault where
  | code (fault : Code.Fault)
  | integer (fault : Number.IntegerFault)
  | threshold (fault : UndeclaredThreshold)
  /-- A failure of the rule's own, in its own words. -/
  | other (text : String)
deriving DecidableEq, Repr

/-- The wording of a fault. -/
def Fault.message : Fault → String
  | .code fault => fault.message
  | .integer fault => fault.message
  | .threshold fault => fault.message
  | .other text => text

/-- The wording of a fault inside a report, where the text about a threshold is quoted. -/
def Fault.reported : Fault → String
  | .threshold fault => Text.quoted fault.message
  | fault => fault.message

/-- Why a rule has no judgement of a node. -/
abbrev Stop := Code.Stop Fault

instance : MonadLift (Except Code.Fault) (Except Stop) :=
  ⟨fun x => x.mapError fun fault => .raised (.code fault)⟩

instance : MonadLift (Except (Code.Stop Code.Fault)) (Except Stop) :=
  ⟨fun x => x.mapError (Code.Stop.map .code)⟩

instance : MonadLift (Except UndeclaredThreshold) (Except Stop) :=
  ⟨fun x => x.mapError fun fault => .raised (.threshold fault)⟩

/-- What a rule may consult while it judges a node. -/
structure Context where
  tree : Tree
  tables : Tables
  settings : Except Stop RuleSettings

/-- The tags of the place of a node. -/
def Context.tags (context : Context) (n : Node) : Except Stop (List Tag) :=
  classify context.tables context.tree n

end SeamLint.Rule

namespace SeamLint

/-- A rule: the kinds of nodes it wants to see, its thresholds by default, and how it judges
a node. -/
structure Rule where
  descriptor : Rule.Descriptor
  kinds : List Code.Kind
  thresholds : List (String × Int) := []
  evaluate : Rule.Context → Code.Node → Except Rule.Stop (Option Finding)

end SeamLint

namespace SeamLint.Rule

open SeamLint.Code SeamLint.Finding

/-- The id of a rule. -/
protected def id (r : Rule) : String := r.descriptor.id

/-- What a rule found at a span of the tree. -/
def Descriptor.found (d : Descriptor) (context : Context) (span : Span)
    (arguments : List Argument) : Finding :=
  ⟨d.id, context.tree.path, span, arguments⟩

/-- The type a symbol belongs to is to be left alone. Without a symbol there is no such
type. -/
def Context.excludesTypeOf (context : Context) (symbol : Option Symbol) : Except Stop Bool :=
  match symbol with
  | none => .ok false
  | some s => do return (← context.settings).isTypeExcluded s.containingType

end SeamLint.Rule
