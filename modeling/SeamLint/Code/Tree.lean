import SeamLint.Code.Node

set_option autoImplicit false

/-! # Source trees

A tree is an array of nodes that refer to each other by index. Nothing forces the links to
be sensible: a link may lead nowhere or in circles, and parents and children may disagree.
Looking a node up can therefore fail, and the walk to the root is bounded by the size of
the tree. `WellFormed` says what the trees that `Builder` makes satisfy.
-/

namespace SeamLint.Code

/-- What can go wrong while a tree is examined. -/
inductive Fault where
  /-- A link leads to an index that the tree does not have. -/
  | missingNode
  /-- A complexity was asked for a node that is no code unit. -/
  | notCodeUnit (kind : Kind) (index : Nat)
deriving DecidableEq, Repr

/-- The wording of a fault. -/
def Fault.message : Fault → String
  | .missingNode => "tuple index out of range"
  | .notCodeUnit kind index => s!"{kind.name} node {index} is not a code unit"

/-- Why there is no result. A fault can be caught and reported; what never ends cannot, since
whoever waits for the result waits forever. -/
inductive Stop (ε : Type) where
  | raised (fault : ε)
  | endless
deriving DecidableEq, Repr

/-- The same reason, with the fault told in other words. -/
def Stop.map {ε ε' : Type} (f : ε → ε') : Stop ε → Stop ε'
  | .raised fault => .raised (f fault)
  | .endless => .endless

/-- Puts items on a stack one after another, so that the last of them lies on top. -/
def pushAll {α : Type} (stack items : List α) : List α :=
  items.foldl (fun stack item => item :: stack) stack

theorem pushAll_eq {α : Type} (stack items : List α) :
    pushAll stack items = items.reverse ++ stack := by
  induction items generalizing stack with
  | nil => rfl
  | cons item items ih =>
      rw [pushAll, List.foldl_cons, ← pushAll, ih, List.reverse_cons, List.append_assoc]
      rfl

/-- The nodes of one source file. Node zero is the root. -/
structure Tree where
  path : String
  nodes : Array Node
deriving Repr, Inhabited

namespace Tree

/-- The number of nodes. -/
def size (t : Tree) : Nat := t.nodes.size

/-- The node with the given index. -/
def node (t : Tree) (index : Nat) : Except Fault Node :=
  match t.nodes[index]? with
  | some n => .ok n
  | none => .error .missingNode

/-- The node a link leads to, if there is a link. -/
def follow (t : Tree) (link : Option Nat) : Except Fault (Option Node) :=
  match link with
  | none => .ok none
  | some index => (t.node index).map some

/-- The parent of a node. -/
def parent (t : Tree) (n : Node) : Except Fault (Option Node) := t.follow n.parent

/-- The children of a node, in order. -/
def children (t : Tree) (n : Node) : Except Fault (List Node) := n.children.mapM t.node

/-- The first child of a node. -/
def firstChild (t : Tree) (n : Node) : Except Fault (Option Node) := t.follow n.children.head?

/-- The block or expression body of a declaration. -/
def body (t : Tree) (n : Node) : Except Fault (Option Node) := do
  return (← t.children n).find? fun child => child.kind.isBody

/-! ## The way to the root -/

/-- The chain of parents that a walk meets, nearest first, and whether the walk ended at a
link that leads nowhere. -/
structure Lineage where
  nodes : List Node
  broken : Bool
deriving Repr

/-- One more node in front of a chain. -/
def Lineage.cons (n : Node) (rest : Lineage) : Lineage := { rest with nodes := n :: rest.nodes }

/-- Follows parent links from `link`, at most `steps` of them. -/
def climb (t : Tree) : Nat → Option Nat → Lineage
  | _, none => ⟨[], false⟩
  | 0, some _ => ⟨[], false⟩
  | steps + 1, some index =>
      match t.nodes[index]? with
      | none => ⟨[], true⟩
      | some n => (climb t steps n.parent).cons n

/-- The chain of parents of a node. A tree has no longer chain without repetition than it
has nodes, so a walk of that length meets every node above. -/
def lineage (t : Tree) (n : Node) : Lineage := t.climb t.size n.parent

/-- The nodes above a node, nearest first. -/
def ancestors (t : Tree) (n : Node) : Except Fault (List Node) :=
  let line := t.lineage n
  if line.broken then .error .missingNode else .ok line.nodes

/-- The nearest node above `n` whose kind satisfies `p`. -/
def enclosing (t : Tree) (n : Node) (p : Kind → Bool) : Except Fault (Option Node) :=
  let line := t.lineage n
  match line.nodes.find? fun ancestor => p ancestor.kind with
  | some ancestor => .ok (some ancestor)
  | none => if line.broken then .error .missingNode else .ok none

/-! ## Well-formed trees -/

/-- Nodes know their index, node zero is the root, every other node lies below an earlier
one, and the children of a node are the nodes that name it as their parent, in order. -/
structure WellFormed (t : Tree) : Prop where
  nonempty : 0 < t.size
  index : ∀ (i : Nat) (n : Node), t.nodes[i]? = some n → n.index = i
  root : ∀ n : Node, t.nodes[0]? = some n → n.kind = .compilationUnit ∧ n.parent = none
  parent : ∀ (i : Nat) (n : Node), t.nodes[i]? = some n → 0 < i → ∃ p, n.parent = some p ∧ p < i
  children : ∀ (i : Nat) (n : Node), t.nodes[i]? = some n → n.children =
    (List.range t.size).filter fun j => (t.nodes[j]?.bind Node.parent) = some i

end Tree

end SeamLint.Code
