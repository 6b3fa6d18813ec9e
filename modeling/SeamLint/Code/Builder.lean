import SeamLint.Code.Tree

set_option autoImplicit false

/-! # Growing a tree

A builder keeps two tables: the nodes so far, each of which knows its parent, and for every
node the list of its children. The two are filled side by side and are joined only when the
tree is built. A step of a builder may be refused. What it has changed by then is not taken
back, so that it matters where in a step the refusal comes.
-/

namespace SeamLint.Code

/-- A tree that is being built. -/
structure Builder where
  path : String
  /-- The nodes, without their children. -/
  nodes : Array Node
  /-- The children of the node with each index. -/
  children : Array (List Nat)
deriving Repr, Inhabited

/-- Why a step was refused. -/
inductive BuildFault where
  /-- The parent of a new node is not there. -/
  | missingParent (index : Int)
  /-- The node whose span is to be set is not there. -/
  | missingNode
  /-- There is no list for the children of a node. -/
  | missingList (index : Nat)
deriving DecidableEq, Repr

/-- The wording of a fault. -/
def BuildFault.message : BuildFault → String
  | .missingParent index => s!"Parent index {index} does not exist yet"
  | .missingNode => "list index out of range"
  | .missingList index => s!"{index}"

/-- A step of a builder, which leaves a builder behind also where it is refused. -/
abbrev Build := EStateM BuildFault Builder

namespace Builder

/-- The number of nodes so far. -/
def size (b : Builder) : Nat := b.nodes.size

/-! ## Adding nodes -/

/-- The node below which a new one is to go. Without a parent that is the root, and the root
itself goes below nothing. -/
def placeFor (parent : Option Int) : Build (Option Nat) := do
  let size := (← get).size
  match parent with
  | none => return if 0 < size then some 0 else none
  | some index =>
      if 0 ≤ index && index < size then return some index.toNat
      else throw (.missingParent index)

/-- Puts an index at the end of the list of children of `parent`. -/
def enlist (parent index : Nat) : Build Unit := do
  if parent < (← get).children.size then
    modify fun b => { b with children := b.children.modify parent (· ++ [index]) }
  else throw (.missingList parent)

/-- Adds a node, below the root if no parent is given, and tells its index. -/
def add (parent : Option Int) (facts : Facts) : Build Nat := do
  let index := (← get).size
  let place ← placeFor parent
  modify fun b => { b with nodes := b.nodes.push { facts with index, parent := place } }
  modify fun b => { b with children := b.children.push [] }
  if let some place := place then enlist place index
  return index

/-! ## Changing nodes -/

/-- The index that a number stands for: a negative one counts from the end. -/
def place? (b : Builder) (index : Int) : Option Nat :=
  let place := if index < 0 then index + b.size else index
  if 0 ≤ place && place < b.size then some place.toNat else none

/-- Sets the span of a node. -/
def setSpan (index : Int) (span : Span) : Build Unit := do
  match (← get).place? index with
  | some place => modify fun b => { b with nodes := b.nodes.modify place fun n => { n with span } }
  | none => throw .missingNode

/-! ## Building trees -/

/-- A node together with its children. -/
def joined (b : Builder) (n : Node) : Except BuildFault Node :=
  match b.children[n.index]? with
  | some children => .ok { n with children }
  | none => .error (.missingList n.index)

/-- The tree as it stands. -/
def build : Build Tree := do
  let b ← get
  let nodes ← ofExcept (b.nodes.toList.mapM b.joined)
  return ⟨b.path, nodes.toArray⟩

/-- The builder after a step. -/
def after {α : Type} (step : Build α) (b : Builder) : Builder :=
  match step.run b with
  | .ok _ after => after
  | .error _ after => after

/-- The facts that the root starts with. -/
def rootFacts : Facts := { kind := .compilationUnit }

/-- A builder for a file at `path`, with a root only. -/
def start (path : String) : Builder := after (add none rootFacts) ⟨path, #[], #[]⟩

end Builder

end SeamLint.Code
