import Mathlib.Data.List.Basic
import SeamLint.Proofs.SnapshotFields
import SeamLint.Proofs.SnapshotWalk

set_option autoImplicit false

/-! # The grammar of snapshot documents

Which documents are snapshots, and what is wrong with the others. A document contains nodes:
its root, and below each node the items of the list that stands under `children`
(`contents`). `IsSnapshot` states what each of them has to look like. `documentDefects` lists
everything that is wrong with a document, node by node in reading order, also behind the
first defect.

Neither mentions decoding. The main result is that decoding gives a tree for exactly the
snapshots, and that it fails with the first defect of the list for every other document.
-/

namespace SeamLint.Snapshot

open SeamLint.Code SeamLint.Data

/-! ## The nodes of a document -/

/-- The fields of an object; other values have none. -/
def fieldsOf : Value → Fields
  | .object fields => fields
  | _ => []

/-- The items of a list; other values have none. -/
def itemsOf : Value → List Value
  | .list items => items
  | _ => []

/-- The values that stand right below a node. -/
def childrenOf (v : Value) : List Value := itemsOf (Fields.getD (fieldsOf v) "children")

/-- What stands below a node is smaller than the node. -/
theorem sizeOf_lt_of_mem_childrenOf {v child : Value} (h : child ∈ childrenOf v) :
    sizeOf child < sizeOf v := by
  cases v with
  | object fields =>
      unfold childrenOf fieldsOf Fields.getD Fields.get? at h
      cases hfind : Fields.find? (.text "children") fields with
      | none => simp [hfind, itemsOf] at h
      | some raw =>
          have hfields := Reading.sizeOf_find?_lt hfind
          cases raw with
          | list items =>
              have hitem : sizeOf child < sizeOf items :=
                List.sizeOf_lt_of_mem (by simpa [hfind, itemsOf] using h)
              simp only [Value.list.sizeOf_spec] at hfields
              simp only [Value.object.sizeOf_spec]
              omega
          | _ => simp [hfind, itemsOf] at h
  | _ => simp [childrenOf, fieldsOf, Fields.getD, Fields.get?, Fields.find?, itemsOf] at h

/-- A node of a document with everything below it. -/
def contents (v : Value) : Nested Value :=
  .node v ((childrenOf v).attach.map fun child => contents child.1)
termination_by sizeOf v
decreasing_by exact sizeOf_lt_of_mem_childrenOf child.2

theorem contents_eq (v : Value) : contents v = .node v ((childrenOf v).map contents) := by
  rw [contents, List.attach_map_val]

theorem item_contents (v : Value) : (contents v).item = v := by
  rw [contents_eq]
  rfl

theorem children_contents (v : Value) :
    (contents v).children = (childrenOf v).map contents := by
  rw [contents_eq]
  rfl

/-- The nodes below the top, in reading order. -/
def nodesBelow (v : Value) : List Value := Nested.itemsAll (contents v).children

theorem items_contents (v : Value) : (contents v).items = v :: nodesBelow v := by
  rw [Nested.items_eq, item_contents]
  rfl

/-! ## Snapshots -/

/-- A symbol is an object that has a name and whose other fields have their shapes, or
nothing. -/
def isSymbol : Value → Bool
  | .null => true
  | .object fields =>
      (textOf (Fields.getD fields "name")).isSome &&
        (symbolTextNames.all fun name => isText (Fields.getD fields name)) &&
        (symbolFlagNames.all fun name => isFlag (Fields.getD fields name)) &&
        symbolListNames.all fun name => isTexts (Fields.getD fields name)
  | _ => false

/-- The fields of a node have their shapes. -/
structure WellShaped (fields : Fields) : Prop where
  kind : isKind (Fields.getD fields "kind")
  name : isText (Fields.getD fields "name")
  span : isSpan (Fields.getD fields "span")
  nameSpan : isSpan (Fields.getD fields "name_span")
  operator : isText (Fields.getD fields "operator")
  modifiers : isTexts (Fields.getD fields "modifiers")
  discard : isFlag (Fields.getD fields "discard")
  symbol : isSymbol (Fields.getD fields "symbol")
  children : isChildList (Fields.getD fields "children")

/-- A node is an object with well-shaped fields. -/
def IsNode (v : Value) : Prop := ∃ fields, v = .object fields ∧ WellShaped fields

/-- The root is a compilation unit. Its span and its children count, and nothing else. -/
structure IsRoot (fields : Fields) : Prop where
  kind : kindOf (Fields.getD fields "kind") = some .compilationUnit
  span : isSpan (Fields.getD fields "span")
  children : isChildList (Fields.getD fields "children")

/-- The root object of a document. -/
def root? (document : Value) : Option Fields :=
  match document.get? "root" with
  | some (.object root) => some root
  | _ => none

/-- **A snapshot** is a document with a root, below which there is nothing but nodes. -/
def IsSnapshot (document : Value) : Prop :=
  ∃ root, root? document = some root ∧ IsRoot root ∧ ∀ v ∈ nodesBelow (.object root), IsNode v

/-! ## Everything that is wrong with a document -/

/-- What is wrong with the list of children of a node. -/
def childDefects (fields : Fields) : List Defect :=
  let raw := Fields.getD fields "children"
  complaint (isChildList raw) (.badChildren raw)

/-- What is wrong with a node: first with its own fields, then with its list of children. -/
def nodeDefects : Value → List Defect
  | .object fields => factDefects fields ++ childDefects fields
  | raw => [.badNode raw]

/-- What is wrong with the root. -/
def rootDefects (root : Fields) : List Defect :=
  let kind := Fields.getD root "kind"
  let span := Fields.getD root "span"
  complaint (isKind kind) (.unknownKind kind) ++
  complaint (kindOf kind = some .compilationUnit) .wrongRoot ++
  complaint (isSpan span) (.badSpan "span" span) ++
  childDefects root

/-- **What is wrong with a document**, node by node in reading order. -/
def documentDefects (document : Value) : List Defect :=
  match root? document with
  | some root => rootDefects root ++ (nodesBelow (.object root)).flatMap nodeDefects
  | none => [.noRoot]

/-- The path that a defect is reported under: that of the tree if the document has a root,
and else the one that is given for the document. -/
def reportedPath (document : Value) (path : Option String) : Option String :=
  match root? document with
  | some _ => some (treePath (fieldsOf document) path)
  | none => path

/-! ## Snapshots are the documents without defects -/

theorem complaint_eq_nil {test : Bool} {defect : Defect} :
    complaint test defect = [] ↔ test = true := by
  cases test <;> simp [complaint]

theorem symbolFieldDefects_eq_nil {fields : Fields} :
    symbolFieldDefects fields = [] ↔
      (symbolTextNames.all fun name => isText (Fields.getD fields name)) ∧
      (symbolFlagNames.all fun name => isFlag (Fields.getD fields name)) ∧
      symbolListNames.all fun name => isTexts (Fields.getD fields name) := by
  simp only [symbolFieldDefects, List.append_eq_nil_iff, List.flatMap_eq_nil_iff,
    complaint_eq_nil, List.all_eq_true, and_assoc]

theorem symbolDefects_eq_nil {raw : Value} : symbolDefects raw = [] ↔ isSymbol raw := by
  cases raw with
  | object fields =>
      cases hname : (textOf (Fields.getD fields "name")).isSome <;>
        simp [symbolDefects, isSymbol, hname, symbolFieldDefects_eq_nil, and_assoc]
  | _ => simp [symbolDefects, isSymbol]

theorem nodeDefects_eq_nil {v : Value} : nodeDefects v = [] ↔ IsNode v := by
  cases v with
  | object fields =>
      simp only [nodeDefects, factDefects, childDefects, List.append_eq_nil_iff, complaint_eq_nil,
        symbolDefects_eq_nil]
      constructor
      · rintro ⟨⟨⟨⟨⟨⟨⟨⟨h₁, h₂⟩, h₃⟩, h₄⟩, h₅⟩, h₆⟩, h₇⟩, h₈⟩, h₉⟩
        exact ⟨fields, rfl, h₁, h₂, h₃, h₄, h₅, h₆, h₇, h₈, h₉⟩
      · rintro ⟨_, ⟨⟩, h₁, h₂, h₃, h₄, h₅, h₆, h₇, h₈, h₉⟩
        exact ⟨⟨⟨⟨⟨⟨⟨⟨h₁, h₂⟩, h₃⟩, h₄⟩, h₅⟩, h₆⟩, h₇⟩, h₈⟩, h₉⟩
  | _ => simp [nodeDefects, IsNode]

theorem rootDefects_eq_nil {root : Fields} : rootDefects root = [] ↔ IsRoot root := by
  simp only [rootDefects, childDefects, List.append_eq_nil_iff, complaint_eq_nil, decide_eq_true_eq]
  constructor
  · rintro ⟨⟨⟨_, hkind⟩, hspan⟩, hchildren⟩
    exact ⟨hkind, hspan, hchildren⟩
  · rintro ⟨hkind, hspan, hchildren⟩
    have hknown : isKind (Fields.getD root "kind") = true := by simp [isKind, hkind]
    exact ⟨⟨⟨hknown, hkind⟩, hspan⟩, hchildren⟩

theorem documentDefects_eq_nil {document : Value} :
    documentDefects document = [] ↔ IsSnapshot document := by
  unfold documentDefects IsSnapshot
  cases root? document with
  | none => simp
  | some root =>
      simp only [List.append_eq_nil_iff, List.flatMap_eq_nil_iff, rootDefects_eq_nil,
        nodeDefects_eq_nil, Option.some.injEq, exists_eq_left']

/-! ## Decoding finds the first defect -/

/-- The facts that a node states. -/
def stated (v : Value) : Facts := factsOf (fieldsOf v)

/-- The children of a node are found once their list has its shape. -/
theorem decodeChildren_eq (fields : Fields) :
    decodeChildren fields = settle (childDefects fields) (childrenOf (.object fields)) := by
  unfold decodeChildren childDefects childrenOf fieldsOf
  dsimp only
  cases Fields.getD fields "children" with
  | list items => rfl
  | _ =>
      simp only [settle_complaint, isChildList, itemsOf]
      cases Value.isGiven _ <;> rfl

theorem readNodes_eq {vs : List Value}
    (ih : ∀ v ∈ vs, readNode v =
      settle ((contents v).items.flatMap nodeDefects) ((contents v).map stated)) :
    readNodes vs =
      settle ((Nested.itemsAll (vs.map contents)).flatMap nodeDefects)
        (Nested.mapAll stated (vs.map contents)) := by
  induction vs with
  | nil => rfl
  | cons v vs ihvs =>
      have hfirst := ih v List.mem_cons_self
      have hrest := ihvs fun w hw => ih w (List.mem_cons_of_mem v hw)
      rw [readNodes, hfirst, hrest, List.map_cons, Nested.itemsAll, List.flatMap_append]
      refine settle_bind ?_
      rw [settle_pure]
      rfl

/-- Reading a node and everything below it finds the first defect in reading order. -/
theorem readNode_eq (v : Value) :
    readNode v = settle ((contents v).items.flatMap nodeDefects) ((contents v).map stated) := by
  induction v using contents.induct with
  | case1 v ih =>
      have hbelow := readNodes_eq fun child hchild => ih ⟨child, hchild⟩
      rw [items_contents, List.flatMap_cons, nodesBelow, children_contents, contents_eq]
      cases v with
      | object fields =>
          -- the defects of its fields, of its list of children, and of what stands below
          rw [readNode, decodeFacts_eq, readChildren_eq, decodeChildren_eq, settle_bind hbelow,
            nodeDefects, List.append_assoc]
          refine settle_bind ?_
          rw [settle_pure]
          rfl
      | _ => rfl

/-- The children of a node of a document, with everything below them. -/
theorem readChildren_contents (fields : Fields) :
    readChildren fields =
      settle (childDefects fields ++ (nodesBelow (.object fields)).flatMap nodeDefects)
        (Nested.mapAll stated (contents (.object fields)).children) := by
  rw [nodesBelow, children_contents, readChildren_eq, decodeChildren_eq]
  exact settle_bind (readNodes_eq fun child _ => readNode_eq child)

/-- The facts of the root. -/
def rootFacts (root : Fields) : Facts where
  kind := .compilationUnit
  span := (spanOf (Fields.getD root "span")).getD {}

/-- All facts that a document with the given root states. -/
def documentOutline (root : Fields) : Nested Facts :=
  .node (rootFacts root) (Nested.mapAll stated (contents (.object root)).children)

/-- The tree of a document with the given root. -/
def treeBelow (path : String) (root : Fields) : Tree :=
  .ofNested path (documentOutline root).item.span (documentOutline root).children

theorem decodeRoot_eq (path : String) (root : Fields) :
    decodeRoot path root =
      settle (rootDefects root ++ (nodesBelow (.object root)).flatMap nodeDefects)
        (treeBelow path root) := by
  rw [decodeRoot_eq_readRoot]
  unfold readRoot rootDefects
  rw [decodeKind_eq, decodeSpan_eq, readChildren_contents]
  simp only [List.append_assoc]
  -- an unknown kind is settled with a default kind, on which the next test need not agree
  cases hkind : kindOf (Fields.getD root "kind") with
  | none => simp [isKind, hkind, complaint, settle, bind, Except.bind]
  | some kind =>
      refine settle_bind ?_
      by_cases hunit : kind = .compilationUnit
      · subst hunit
        exact settle_bind (settle_pure _)
      · have hother : decide (some kind = some .compilationUnit) = false := by simpa using hunit
        rw [hother]
        exact if_pos hunit

/-! ## Documents -/

theorem root?_eq_some {document : Value} {root : Fields} :
    root? document = some root ↔
      ∃ fields, document = .object fields ∧ Fields.get? fields "root" = some (.object root) := by
  unfold root?
  cases document with
  | object fields =>
      simp only [Value.get?, Value.object.injEq, exists_eq_left']
      cases Fields.get? fields "root" with
      | none => simp
      | some raw => cases raw <;> simp
  | _ => simp [Value.get?]

theorem decode_of_root {document : Value} {root : Fields} (h : root? document = some root)
    (path : Option String) :
    decode document path =
      (decodeRoot (treePath (fieldsOf document) path) root).mapError fun defect =>
        ⟨some (treePath (fieldsOf document) path), defect⟩ := by
  obtain ⟨fields, rfl, hroot⟩ := root?_eq_some.mp h
  rw [decode, hroot]
  rfl

theorem decode_of_root?_eq_none {document : Value} (h : root? document = none)
    (path : Option String) : decode document path = .error ⟨path, .noRoot⟩ := by
  cases document with
  | object fields =>
      rw [decode]
      split
      · next root hroot =>
          have hsome := root?_eq_some.mpr ⟨fields, rfl, hroot⟩
          exact absurd (h.symm.trans hsome) (Option.some_ne_none root).symm
      · rfl
  | _ => rfl

theorem documentDefects_of_root {document : Value} {root : Fields}
    (h : root? document = some root) :
    documentDefects document =
      rootDefects root ++ (nodesBelow (.object root)).flatMap nodeDefects := by
  rw [documentDefects, h]

/-- A snapshot has a tree. -/
theorem decode_of_isSnapshot {document : Value} {root : Fields}
    (hroot : root? document = some root) (h : IsSnapshot document) (path : Option String) :
    decode document path = .ok (treeBelow (treePath (fieldsOf document) path) root) := by
  rw [decode_of_root hroot, decodeRoot_eq, ← documentDefects_of_root hroot,
    documentDefects_eq_nil.mpr h]
  rfl

/-- A document with defects is rejected with the first of them. -/
theorem decode_of_documentDefects_cons {document : Value} {defect : Defect} {rest : List Defect}
    (h : documentDefects document = defect :: rest) (path : Option String) :
    decode document path = .error ⟨reportedPath document path, defect⟩ := by
  cases hroot : root? document with
  | none =>
      have hdefect : Defect.noRoot = defect := by
        rw [documentDefects, hroot] at h
        exact (List.cons.inj h).1
      rw [decode_of_root?_eq_none hroot, reportedPath, hroot, hdefect]
  | some root =>
      rw [decode_of_root hroot, decodeRoot_eq, ← documentDefects_of_root hroot, h, reportedPath,
        hroot]
      rfl

theorem isSnapshot_of_decode {document : Value} {path : Option String} {t : Tree}
    (h : decode document path = .ok t) : IsSnapshot document := by
  rw [← documentDefects_eq_nil]
  cases hdefects : documentDefects document with
  | nil => rfl
  | cons defect rest =>
      rw [decode_of_documentDefects_cons hdefects] at h
      cases h

/-- What a message about a file starts with. An empty path is not shown. -/
def pathLabel : Option String → String
  | some path => if path = "" then "" else path ++ ": "
  | none => ""

theorem placedMessage_eq (path : Option String) (message : String) :
    placedMessage path message = pathLabel path ++ message := by
  cases path with
  | none => simp [placedMessage, pathLabel]
  | some p =>
      by_cases hp : p = ""
      · simp [placedMessage, pathLabel, hp]
      · have hnonempty : p.isEmpty = false := by simpa using hp
        simp [placedMessage, pathLabel, hp, hnonempty]

/-- **Exactly the snapshots are decoded.** Every other document is rejected with its first
defect in reading order, under the path of the tree as soon as the document has a root. -/
theorem decode_accepts_exactly_snapshots (document : Value) (path : Option String) :
    ((∃ t, decode document path = .ok t) ↔ IsSnapshot document) ∧
    (¬ IsSnapshot document → ∃ fault, decode document path = .error fault ∧
      (documentDefects document).head? = some fault.defect ∧
      fault.message = pathLabel (reportedPath document path) ++ fault.defect.message) := by
  refine ⟨⟨?_, ?_⟩, ?_⟩
  · rintro ⟨t, ht⟩
    exact isSnapshot_of_decode ht
  · intro hsnapshot
    have ⟨root, hroot, _⟩ := hsnapshot
    exact ⟨_, decode_of_isSnapshot hroot hsnapshot path⟩
  · intro hnot
    cases hdefects : documentDefects document with
    | nil => exact absurd (documentDefects_eq_nil.mp hdefects) hnot
    | cons defect rest =>
        exact ⟨_, decode_of_documentDefects_cons hdefects path, rfl, placedMessage_eq _ _⟩

/-- A document in which a node has a child that is no node, before a node without a kind. -/
def strayDocument : Value :=
  .object [field "root" (.object [field "kind" (.text "compilation_unit"),
    field "children" (.list [
      .object [field "kind" (.text "class"), field "children" (.list [.int 5])],
      .object []])])]

/-- The child below the first node is met before the second node. -/
theorem decode_accepts_exactly_snapshots_stray :
    ¬ IsSnapshot strayDocument ∧
      (documentDefects strayDocument).head? = some (.badNode (.int 5)) ∧
      ∃ fault, decode strayDocument (some "a.cs") = .error fault ∧
        fault.message = "a.cs: Invalid node 5; expected a mapping" := by
  have hdecode : decode strayDocument (some "a.cs") =
      .error ⟨some "a.cs", .badNode (.int 5)⟩ := by
    rw [decode_of_root rfl, decodeRoot_eq_readRoot]
    rfl
  obtain ⟨haccepted, hrejected⟩ :=
    decode_accepts_exactly_snapshots strayDocument (some "a.cs")
  have hnot : ¬ IsSnapshot strayDocument := by
    intro hsnapshot
    obtain ⟨t, ht⟩ := haccepted.mpr hsnapshot
    rw [hdecode] at ht
    cases ht
  obtain ⟨fault, hfault, hfirst, hmessage⟩ := hrejected hnot
  rw [hdecode] at hfault
  cases hfault
  exact ⟨hnot, hfirst, _, hdecode, by decide⟩

end SeamLint.Snapshot
