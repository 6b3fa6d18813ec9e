import SeamLint.Code.Builder
import SeamLint.Data.Shown

set_option autoImplicit false

/-! # Snapshot documents

A front-end exports a source file as a document: an object with a `root` node, where a node
is an object with a `kind`, further facts, and its `children`. `decode` reads such a
document with a stack of what is still to be read and stops at the first thing that is not as
it should be: of one node first its facts, in the order in which they are listed below, then
its list of children. The children are put on the stack from the last to the first, so that
they are read in order and each of them with everything below it before the next.
-/

namespace SeamLint.Snapshot

open SeamLint.Code SeamLint.Data

/-- What a document gets wrong. -/
inductive Defect where
  | noRoot
  | wrongRoot
  | unknownKind (raw : Value)
  | badSpan (field : String) (raw : Value)
  | badText (field : String) (raw : Value)
  | badTextList (field : String) (raw : Value)
  | badFlag (field : String) (raw : Value)
  | namelessSymbol (raw : Value)
  | badSymbolField (field : String) (raw : Value) (expected : Shape)
  | badNode (raw : Value)
  | badChildren (raw : Value)
  /-- It is not known which node has the position. -/
  | lostPosition (position : Nat)
  /-- A step of the builder was refused. -/
  | refused (fault : BuildFault)

/-- The wording of a defect. -/
def Defect.message : Defect → String
  | .noRoot => "Snapshot must be a mapping with a 'root' node"
  | .wrongRoot => s!"Root node must be '{Kind.compilationUnit.name}'"
  | .unknownKind raw => s!"Unknown node kind '{raw.shown}'"
  | .badSpan field raw =>
      s!"Invalid {field} {raw.quoted}; expected [start_line, start_column, end_line, end_column]"
  | .badText field raw => s!"Invalid {field} {raw.quoted}; expected a string"
  | .badTextList field raw => s!"Invalid {field} {raw.quoted}; expected a list of strings"
  | .badFlag field raw => s!"Invalid {field} {raw.quoted}; expected true or false"
  | .namelessSymbol raw => s!"Invalid symbol {raw.quoted}; a symbol needs at least a name"
  | .badSymbolField field raw expected =>
      s!"Invalid symbol.{field} {raw.quoted}; expected {expected.name}"
  | .badNode raw => s!"Invalid node {raw.quoted}; expected a mapping"
  | .badChildren raw => s!"Invalid children {raw.quoted}; expected a list"
  | .lostPosition position => s!"{position}"
  | .refused fault => fault.message

/-! ## Single fields -/

/-- The kind of a node. -/
def decodeKind (raw : Value) : Except Defect Kind :=
  match raw with
  | .text name =>
      match Kind.ofName? name with
      | some kind => .ok kind
      | none => .error (.unknownKind raw)
  | _ => .error (.unknownKind raw)

/-- The four numbers of a span, given in a list or under their names. -/
def spanValues : Value → Value
  | .object fields =>
      .list [Fields.getD fields "start_line", Fields.getD fields "start_column",
             Fields.getD fields "end_line", Fields.getD fields "end_column"]
  | raw => raw

/-- A span, if one is given. -/
def decodeSpan (field : String) (raw : Value) : Except Defect (Option Span) :=
  match raw with
  | .null => .ok none
  | _ =>
      match spanValues raw with
      | .list [.int a, .int b, .int c, .int d] => .ok (some ⟨a, b, c, d⟩)
      | _ => .error (.badSpan field raw)

/-- A text, if one is given. -/
def decodeText (field : String) (raw : Value) : Except Defect (Option String) :=
  match raw with
  | .null => .ok none
  | .text s => .ok (some s)
  | _ => .error (.badText field raw)

/-- The texts of a list that holds nothing else. -/
def textItems? : List Value → Option (List String)
  | [] => some []
  | .text s :: rest => (textItems? rest).map (s :: ·)
  | _ :: _ => none

/-- A list of texts; none given means the empty list. -/
def decodeTextList (field : String) (raw : Value) : Except Defect (List String) :=
  match raw with
  | .null => .ok []
  | .list items =>
      match textItems? items with
      | some texts => .ok texts
      | none => .error (.badTextList field raw)
  | _ => .error (.badTextList field raw)

/-- A truth value; none given means false. -/
def decodeFlag (field : String) (raw : Value) : Except Defect Bool :=
  match raw with
  | .null => .ok false
  | .bool b => .ok b
  | _ => .error (.badFlag field raw)

/-! ## Symbols -/

/-- A text field of a symbol, if it is given. -/
def symbolText (fields : Fields) (name : String) : Except Defect (Option String) :=
  match Fields.getD fields name with
  | .null => .ok none
  | .text s => .ok (some s)
  | raw => .error (.badSymbolField name raw .text)

/-- A truth value of a symbol; none given means false. -/
def symbolFlag (fields : Fields) (name : String) : Except Defect Bool :=
  match Fields.getD fields name with
  | .null => .ok false
  | .bool b => .ok b
  | raw => .error (.badSymbolField name raw .bool)

/-- A list of texts of a symbol. -/
def symbolTexts (fields : Fields) (name : String) : Except Defect (List String) :=
  decodeTextList ("symbol." ++ name) (Fields.getD fields name)

/-- The symbol with the given name and fields. -/
def decodeSymbolFields (name : String) (fields : Fields) : Except Defect Symbol := do
  let kind ← symbolText fields "kind"
  let containingType ← symbolText fields "containing_type"
  let namespaceName ← symbolText fields "namespace"
  let typeName ← symbolText fields "type_name"
  let typeKind ← symbolText fields "type_kind"
  let isStatic ← symbolFlag fields "is_static"
  let isAbstract ← symbolFlag fields "is_abstract"
  let isExtern ← symbolFlag fields "is_extern"
  let implementsInterface ← symbolFlag fields "implements_interface"
  let baseTypes ← symbolTexts fields "base_types"
  let interfaces ← symbolTexts fields "interfaces"
  return { name, kind := kind.getD "method", containingType, namespaceName, typeName, typeKind,
           isStatic, isAbstract, isExtern, implementsInterface, baseTypes, interfaces }

/-- A symbol, if one is given. -/
def decodeSymbol (raw : Value) : Except Defect (Option Symbol) :=
  match raw with
  | .null => .ok none
  | .object fields =>
      match Fields.get? fields "name" with
      | some (.text name) => (decodeSymbolFields name fields).map some
      | _ => .error (.namelessSymbol raw)
  | _ => .error (.namelessSymbol raw)

/-! ## Nodes -/

/-- The facts of a node. -/
def decodeFacts (fields : Fields) : Except Defect Facts := do
  let kind ← decodeKind (Fields.getD fields "kind")
  let name ← decodeText "name" (Fields.getD fields "name")
  let span ← decodeSpan "span" (Fields.getD fields "span")
  let nameSpan ← decodeSpan "name_span" (Fields.getD fields "name_span")
  let operator ← decodeText "operator" (Fields.getD fields "operator")
  let modifiers ← decodeTextList "modifiers" (Fields.getD fields "modifiers")
  let isDiscard ← decodeFlag "discard" (Fields.getD fields "discard")
  let symbol ← decodeSymbol (Fields.getD fields "symbol")
  return { kind, span := span.getD {}, name, nameSpan, operator, modifiers, isDiscard, symbol }

/-- The list of children of a node; a value that does not count as given means none. -/
def decodeChildren (fields : Fields) : Except Defect (List Value) :=
  match Fields.getD fields "children" with
  | .list items => .ok items
  | raw => if raw.isGiven then .error (.badChildren raw) else .ok []

/-! ## The way through a document -/

/-- The state of reading a document. On the stack lie the values that are still to be read, each
with the position of the node that it stands below, and `position` is that of the next node.
The nodes that have been read are counted, and `positions` tells which index of the tree each
position has got. -/
structure Reading where
  stack : List (Value × Option Nat)
  position : Nat := 0
  count : Nat := 0
  positions : List (Nat × Nat) := [(0, 0)]
  builder : Builder

/-- The result of a step of a builder. -/
def perform {α : Type} (step : Build α) (b : Builder) : Except Defect (α × Builder) :=
  match step.run b with
  | .ok result after => .ok (result, after)
  | .error fault _ => .error (.refused fault)

namespace Reading

/-- Takes a node into the tree. The root, which has no parent, is there already. -/
def take (r : Reading) (fields : Fields) : Option Nat → Except Defect Reading
  | none => .ok { r with count := r.count + 1 }
  | some parent => do
      let facts ← decodeFacts fields
      match r.positions.lookup parent with
      | none => throw (.lostPosition parent)
      | some place =>
          let (index, builder) ← perform (Builder.add (some place) facts) r.builder
          return { r with
            count := r.count + 1, positions := (r.count, index) :: r.positions, builder }

/-- Reads the value that was on top of `rest`: the node is taken into the tree, and its
children are put on the stack. -/
def step (r : Reading) (raw : Value) (parent : Option Nat) (rest : List (Value × Option Nat)) :
    Except Defect Reading :=
  match raw with
  | .object fields => do
      let taken ← r.take fields parent
      let children ← decodeChildren fields
      return { taken with
        stack := pushAll rest (children.reverse.map (·, some r.position))
        position := r.position + 1 }
  | _ => .error (.badNode raw)

/-! ### Reading comes to an end -/

/-- The size of what lies on a stack. -/
noncomputable def weight : List (Value × Option Nat) → Nat
  | [] => 0
  | (raw, _) :: rest => sizeOf raw + weight rest

theorem weight_append (stack rest : List (Value × Option Nat)) :
    weight (stack ++ rest) = weight stack + weight rest := by
  induction stack with
  | nil => exact (Nat.zero_add _).symm
  | cons entry stack ih => simp only [List.cons_append, weight, ih, Nat.add_assoc]

theorem sizeOf_find?_lt {key : Key} {v : Value} :
    ∀ {fields : Fields}, Fields.find? key fields = some v → sizeOf v < sizeOf fields
  | (k, w) :: rest, h => by
      rw [Fields.find?] at h
      split at h
      · obtain rfl := Option.some.inj h
        simp only [List.cons.sizeOf_spec, Prod.mk.sizeOf_spec]
        omega
      · have hrest := sizeOf_find?_lt h
        simp only [List.cons.sizeOf_spec]
        omega

theorem weight_children_lt {fields : Fields} {children : List Value} (parent : Option Nat)
    (h : decodeChildren fields = .ok children) :
    weight (children.map (·, parent)) < sizeOf (Value.object fields) := by
  have hitems (items : List Value) : weight (items.map (·, parent)) ≤ sizeOf items := by
    induction items with
    | nil => exact Nat.zero_le _
    | cons v items ih =>
        simp only [weight, List.map_cons, List.cons.sizeOf_spec]
        omega
  unfold decodeChildren at h
  split at h
  · next items hfound =>
      obtain rfl := Except.ok.inj h
      have hlist : Fields.find? (.text "children") fields = some (.list items) := by
        unfold Fields.getD Fields.get? at hfound
        cases hfind : Fields.find? (.text "children") fields with
        | none => simp [hfind] at hfound
        | some v => simpa [hfind] using hfound
      have hlt := sizeOf_find?_lt hlist
      have hle := hitems items
      simp only [Value.list.sizeOf_spec] at hlt
      simp only [Value.object.sizeOf_spec]
      omega
  · split at h
    · cases h
    · obtain rfl := Except.ok.inj h
      simp only [weight, List.map_nil, Value.object.sizeOf_spec]
      omega

/-- Of what lies on the stack, a step takes away more than it adds. -/
theorem weight_step_lt {r next : Reading} {raw : Value} {parent : Option Nat}
    {rest : List (Value × Option Nat)} (h : r.step raw parent rest = .ok next) :
    weight next.stack < weight ((raw, parent) :: rest) := by
  unfold step at h
  split at h
  · next fields =>
      cases htake : r.take fields parent with
      | error defect => simp [htake, bind, Except.bind] at h
      | ok taken =>
          cases hchildren : decodeChildren fields with
          | error defect => simp [htake, hchildren, bind, Except.bind] at h
          | ok children =>
              have hlt := weight_children_lt (some r.position) hchildren
              simp only [htake, hchildren, bind, Except.bind, pure, Except.pure] at h
              obtain rfl := Except.ok.inj h
              simp only [pushAll_eq, List.map_reverse, List.reverse_reverse, weight_append, weight]
              omega
  · cases h

/-- Reads everything that lies on the stack. -/
def run (r : Reading) : Except Defect Builder :=
  match _hstack : r.stack with
  | [] => .ok r.builder
  | (raw, parent) :: rest =>
      match _hstep : r.step raw parent rest with
      | .error defect => .error defect
      | .ok next => next.run
termination_by weight r.stack
decreasing_by
  rw [_hstack]
  exact weight_step_lt _hstep

end Reading

/-- A builder with a root, which has the span if one is given. -/
def startWith (path : String) : Option Span → Except Defect Builder
  | none => .ok (Builder.start path)
  | some span => do return (← perform (Builder.setSpan 0 span) (Builder.start path)).2

/-- The tree below a root object. Of the root itself only its span is used. -/
def decodeRoot (path : String) (root : Fields) : Except Defect Tree := do
  let kind ← decodeKind (Fields.getD root "kind")
  if kind ≠ .compilationUnit then throw .wrongRoot
  let span ← decodeSpan "span" (Fields.getD root "span")
  let builder ← startWith path span
  let builder ← Reading.run { stack := [(.object root, none)], builder }
  return (← perform Builder.build builder).1

/-! ## Documents -/

/-- A defect of the document from `path`, if that is known. -/
structure DecodeFault where
  path : Option String
  defect : Defect

/-- A message about a file, behind its path if that is known and not empty. -/
def placedMessage (path : Option String) (message : String) : String :=
  match path with
  | some p => if p.isEmpty then message else p ++ ": " ++ message
  | none => message

/-- The wording of a fault. -/
def DecodeFault.message (f : DecodeFault) : String := placedMessage f.path f.defect.message

/-- The path of a document that does not tell its own. -/
def unnamedPath : String := "<snapshot>"

/-- The path of the tree: the one that the document gives, or else the one that is given
for the document. -/
def treePath (document : Fields) (path : Option String) : String :=
  let own := Fields.getD document "path"
  if own.isGiven then own.shown
  else
    match path with
    | some p => if p.isEmpty then unnamedPath else p
    | none => unnamedPath

/-- Reads a snapshot document. -/
def decode (document : Value) (path : Option String) : Except DecodeFault Tree :=
  match document with
  | .object fields =>
      match Fields.get? fields "root" with
      | some (.object root) =>
          let own := treePath fields path
          (decodeRoot own root).mapError fun defect => ⟨some own, defect⟩
      | _ => .error ⟨path, .noRoot⟩
  | _ => .error ⟨path, .noRoot⟩

end SeamLint.Snapshot
