import Mathlib.Data.Option.Basic
import SeamLint.Proofs.SnapshotGrammar

set_option autoImplicit false

/-! # The tree of a snapshot

A snapshot nests its nodes, a tree holds them in one array. `Flattens` says how the two fit
together: the nodes of the array are the nodes of the document in reading order, and the
links between them are those of the document. Two documents that agree in what a tree is
made of (`SameDocument`) have the same tree, whatever else they contain.
-/

namespace SeamLint.Snapshot

open SeamLint.Code SeamLint.Data

/-! ## Trees that flatten a document -/

/-- Node `n` is the node at address `a` of a document, where `part` stands, and has number
`i` in reading order. -/
structure IsNodeAt (d : Nested Value) (i : Nat) (a : List Nat) (part : Nested Value)
    (n : Node) : Prop where
  index : n.index = i
  parent : n.parent = if a = [] then none else some (d.addresses.idxOf a.dropLast)
  children : n.children =
    (List.range part.children.length).map fun k => d.addresses.idxOf (a ++ [k])
  root : a = [] → n.toFacts = rootFacts (fieldsOf part.item)
  kind : a ≠ [] → kindOf (Fields.getD (fieldsOf part.item) "kind") = some n.kind
  facts : a ≠ [] → n.toFacts = stated part.item

/-- **A flat document**: node by node in reading order, so that everything below a node
stands right behind it. -/
structure Flattens (d : Nested Value) (t : Tree) : Prop where
  size : t.size = d.addresses.length
  node : ∀ (i : Nat) (a : List Nat) (part : Nested Value), d.addresses[i]? = some a →
    Nested.at? a d = some part → ∃ n, t.nodes[i]? = some n ∧ IsNodeAt d i a part n
  below : ∀ (i : Nat) (a : List Nat) (part : Nested Value), d.addresses[i]? = some a →
    Nested.at? a d = some part → ∀ j, t.IsBelow i j ↔ i < j ∧ j < i + part.size

/-! ## The outline of a document -/

theorem fileOutline_documentOutline (root : Fields) :
    fileOutline (documentOutline root).item.span (documentOutline root).children =
      documentOutline root := rfl

theorem addresses_documentOutline (root : Fields) :
    (documentOutline root).addresses = (contents (.object root)).addresses := by
  rw [documentOutline, Nested.addresses, Nested.addressesFrom_mapAll, Nested.addresses_eq]

/-- Below the root, the outline of a document holds what its nodes state. -/
theorem at?_documentOutline {a : List Nat} (h : a ≠ []) (root : Fields) :
    Nested.at? a (documentOutline root) =
      (Nested.at? a (contents (.object root))).map (Nested.map stated) := by
  obtain ⟨i, a, rfl⟩ := List.exists_cons_of_ne_nil h
  rw [← Nested.at?_map, Nested.at?, Nested.at?, Nested.children_map, ← Nested.mapAll_eq]
  rfl

/-- The part of the outline that stands where a part of the document stands. -/
theorem exists_outline_part {root : Fields} {a : List Nat} {part : Nested Value}
    (h : Nested.at? a (contents (.object root)) = some part) :
    ∃ outline, Nested.at? a (documentOutline root) = some outline ∧
      outline.children.length = part.children.length ∧ outline.size = part.size ∧
      outline.item = if a = [] then rootFacts root else stated part.item := by
  by_cases ha : a = []
  · subst ha
    obtain rfl : contents (.object root) = part := by simpa [Nested.at?] using h
    refine ⟨documentOutline root, rfl, ?_, ?_, rfl⟩
    · rw [documentOutline, Nested.children, Nested.mapAll_eq, List.length_map]
    · rw [documentOutline, Nested.size, Nested.sizeAll_mapAll, Nested.size_eq, Nat.add_comm]
  · refine ⟨part.map stated, ?_, ?_, Nested.size_map stated part, ?_⟩
    · rw [at?_documentOutline ha, h]
      rfl
    · rw [Nested.children_map, List.length_map]
    · rw [Nested.item_map, if_neg ha]

/-- The kind that a node states is the one that it names. -/
theorem kindOf_eq_stated {v : Value} (h : IsNode v) :
    kindOf (Fields.getD (fieldsOf v) "kind") = some (stated v).kind := by
  obtain ⟨fields, rfl, hshapes⟩ := h
  obtain ⟨kind, hkind⟩ := Option.isSome_iff_exists.mp hshapes.kind
  simp only [stated, factsOf, fieldsOf, hkind, Option.getD_some]

/-- The tree below a root flattens the document. -/
theorem flattens_treeBelow {root : Fields} (path : String)
    (hnodes : ∀ v ∈ nodesBelow (.object root), IsNode v) :
    Flattens (contents (.object root)) (treeBelow path root) := by
  have houtline := fileOutline_documentOutline root
  have haddresses := addresses_documentOutline root
  refine ⟨?_, ?_, ?_⟩
  · rw [treeBelow, size_ofNested, houtline, ← Nested.length_addresses, haddresses]
  · intro i a part hi hpart
    obtain ⟨outline, hat, hlength, -, hitem⟩ := exists_outline_part hpart
    rw [← haddresses, ← houtline] at hi
    rw [← houtline] at hat
    refine ⟨_, node_ofNested hi hat, rfl, ?_, ?_, ?_, ?_, ?_⟩
    · rw [houtline, haddresses]
    · rw [houtline, haddresses, hlength]
    · rintro rfl
      obtain rfl : contents (.object root) = part := by simpa [Nested.at?] using hpart
      rw [item_contents]
      exact hitem
    · intro ha
      have hnode := hnodes part.item (Nested.mem_itemsAll_children.mpr ⟨a, part, ha, hpart, rfl⟩)
      rw [kindOf_eq_stated hnode, hitem, if_neg ha]
    · intro ha
      exact hitem.trans (if_neg ha)
  · intro i a part hi hpart j
    obtain ⟨outline, hat, -, hsize, -⟩ := exists_outline_part hpart
    rw [← haddresses, ← houtline] at hi
    rw [← houtline] at hat
    rw [← hsize]
    exact isBelow_iff_block hi hat

/-! ## Documents that differ in nothing that counts -/

/-- The fields have the same values under the given names. -/
def SameFields (names : List String) (f g : Fields) : Prop :=
  ∀ name ∈ names, Fields.getD f name = Fields.getD g name

/-- The same value, apart from fields of an object that are not among the given ones. -/
def SameObject (names : List String) (v w : Value) : Prop :=
  v = w ∨ ∃ f g, v = .object f ∧ w = .object g ∧ SameFields names f g

/-- The names of all fields of a symbol. -/
def symbolNames : List String :=
  "name" :: symbolTextNames ++ symbolFlagNames ++ symbolListNames

/-- The names of the fields of a span. -/
def spanNames : List String := ["start_line", "start_column", "end_line", "end_column"]

/-- The names of the fields of a node that are no objects. -/
def plainNames : List String := ["kind", "name", "operator", "modifiers", "discard"]

/-- The same node, apart from fields that do not count and from what stands below. -/
structure SameNode (f g : Fields) : Prop where
  plain : SameFields plainNames f g
  span : SameObject spanNames (Fields.getD f "span") (Fields.getD g "span")
  nameSpan : SameObject spanNames (Fields.getD f "name_span") (Fields.getD g "name_span")
  symbol : SameObject symbolNames (Fields.getD f "symbol") (Fields.getD g "symbol")
  children : isChildList (Fields.getD f "children") = isChildList (Fields.getD g "children")

/-- The same root, apart from fields that do not count and from what stands below. -/
structure SameRoot (f g : Fields) : Prop where
  kind : Fields.getD f "kind" = Fields.getD g "kind"
  span : SameObject spanNames (Fields.getD f "span") (Fields.getD g "span")
  children : isChildList (Fields.getD f "children") = isChildList (Fields.getD g "children")

/-- Two values are the same node. -/
def SameItem (v w : Value) : Prop := ∃ f g, v = .object f ∧ w = .object g ∧ SameNode f g

/-- The same nodes at the same places. -/
def SameBelow (d e : Nested Value) : Prop :=
  ∀ a, a ≠ [] → Option.Rel SameItem ((Nested.at? a d).map Nested.item)
    ((Nested.at? a e).map Nested.item)

/-- **The same document, apart from fields that do not count.** -/
def SameDocument (document document' : Value) : Prop :=
  Fields.getD (fieldsOf document) "path" = Fields.getD (fieldsOf document') "path" ∧
    ∃ root root', root? document = some root ∧ root? document' = some root' ∧
      SameRoot root root' ∧ SameBelow (contents (.object root)) (contents (.object root'))

/-- What stands below two nodes is compared child by child. -/
theorem sameBelow_contents {v w : Value}
    (h : List.Forall₂ (fun c e => SameItem c e ∧ SameBelow (contents c) (contents e))
      (childrenOf v) (childrenOf w)) : SameBelow (contents v) (contents w) := by
  intro a ha
  obtain ⟨i, a, rfl⟩ := List.exists_cons_of_ne_nil ha
  rw [Nested.at?, Nested.at?, children_contents, children_contents, List.getElem?_map,
    List.getElem?_map]
  have hlength := h.length_eq
  cases hc : (childrenOf v)[i]? with
  | none =>
      have hnone : (childrenOf w)[i]? = none := by
        rw [List.getElem?_eq_none_iff] at hc ⊢
        omega
      rw [hnone]
      exact .none
  | some c =>
      obtain ⟨hlt, rfl⟩ := List.getElem?_eq_some_iff.mp hc
      have hlt' : i < (childrenOf w).length := by omega
      obtain ⟨hitem, hbelow⟩ := List.forall₂_iff_get.mp h |>.2 i hlt hlt'
      rw [List.getElem?_eq_getElem hlt']
      cases a with
      | nil => exact .some (by rwa [item_contents, item_contents])
      | cons k a => exact hbelow (k :: a) (List.cons_ne_nil k a)

theorem SameObject.symbol {v w : Value} (h : SameObject symbolNames v w) :
    isSymbol v = isSymbol w ∧ symbolOf v = symbolOf w := by
  obtain rfl | ⟨f, g, rfl, rfl, hsame⟩ := h
  · exact ⟨rfl, rfl⟩
  · simp only [SameFields, symbolNames, symbolTextNames, symbolFlagNames, symbolListNames,
      List.cons_append, List.nil_append, List.forall_mem_cons] at hsame
    constructor
    · simp [isSymbol, symbolTextNames, symbolFlagNames, symbolListNames, hsame]
    · simp [symbolOf, symbolFrom, hsame]

theorem SameObject.span {v w : Value} (h : SameObject spanNames v w) :
    isSpan v = isSpan w ∧ spanOf v = spanOf w := by
  obtain rfl | ⟨f, g, rfl, rfl, hsame⟩ := h
  · exact ⟨rfl, rfl⟩
  · simp only [SameFields, spanNames, List.forall_mem_cons] at hsame
    have hspan : spanOf (.object f) = spanOf (.object g) := by simp [spanOf, hsame]
    refine ⟨?_, hspan⟩
    rw [isSpan, isSpan, hspan]
    rfl

theorem SameNode.wellShaped {f g : Fields} (h : SameNode f g) (hf : WellShaped f) :
    WellShaped g := by
  have hplain := h.plain
  simp only [SameFields, plainNames, List.forall_mem_cons] at hplain
  obtain ⟨hkind, hname, hoperator, hmodifiers, hdiscard, -⟩ := hplain
  exact ⟨hkind ▸ hf.kind, hname ▸ hf.name, h.span.span.1 ▸ hf.span,
    h.nameSpan.span.1 ▸ hf.nameSpan, hoperator ▸ hf.operator, hmodifiers ▸ hf.modifiers,
    hdiscard ▸ hf.discard, h.symbol.symbol.1 ▸ hf.symbol, h.children ▸ hf.children⟩

theorem SameNode.factsOf_eq {f g : Fields} (h : SameNode f g) : factsOf f = factsOf g := by
  have hplain := h.plain
  simp only [SameFields, plainNames, List.forall_mem_cons] at hplain
  obtain ⟨hkind, hname, hoperator, hmodifiers, hdiscard, -⟩ := hplain
  rw [factsOf, factsOf, hkind, hname, h.span.span.2, h.nameSpan.span.2, hoperator, hmodifiers,
    hdiscard, h.symbol.symbol.2]

/-- What is a node in one of two documents is one in the other. -/
theorem SameBelow.isNode {d e : Nested Value} (h : SameBelow d e)
    (hd : ∀ v ∈ Nested.itemsAll d.children, IsNode v) :
    ∀ w ∈ Nested.itemsAll e.children, IsNode w := by
  intro w hw
  obtain ⟨a, part, ha, hpart, rfl⟩ := Nested.mem_itemsAll_children.mp hw
  have hrel := h a ha
  rw [hpart, Option.map_some] at hrel
  cases hother : Nested.at? a d with
  | none => simp [hother] at hrel
  | some other =>
      rw [hother, Option.map_some, Option.rel_some_some] at hrel
      obtain ⟨f, g, hf, hg, hsame⟩ := hrel
      obtain ⟨f', hf', hshapes⟩ :=
        hd other.item (Nested.mem_itemsAll_children.mpr ⟨a, other, ha, hother, rfl⟩)
      obtain rfl : f = f' := Value.object.inj (hf.symm.trans hf')
      exact ⟨g, hg, hsame.wellShaped hshapes⟩

theorem SameRoot.isRoot {f g : Fields} (h : SameRoot f g) (hf : IsRoot f) : IsRoot g :=
  ⟨h.kind ▸ hf.kind, h.span.span.1 ▸ hf.span, h.children ▸ hf.children⟩

/-- Documents that agree where it counts state the same facts at the same places. -/
theorem documentOutline_eq {root root' : Fields} (hroot : SameRoot root root')
    (hbelow : SameBelow (contents (.object root)) (contents (.object root'))) :
    documentOutline root = documentOutline root' := by
  -- address by address, since the two documents themselves may differ at every node
  refine Nested.ext_at fun a => ?_
  by_cases ha : a = []
  · subst ha
    simp only [Nested.at?, Option.map_some, documentOutline, Nested.item, rootFacts,
      hroot.span.span.2]
  · have hrel := hbelow a ha
    rw [at?_documentOutline ha, at?_documentOutline ha, Option.map_map, Option.map_map]
    cases hd : Nested.at? a (contents (.object root)) with
    | none =>
        cases he : Nested.at? a (contents (.object root')) with
        | none => rfl
        | some part => simp [hd, he] at hrel
    | some part =>
        cases he : Nested.at? a (contents (.object root')) with
        | none => simp [hd, he] at hrel
        | some part' =>
            rw [hd, he, Option.map_some, Option.map_some, Option.rel_some_some] at hrel
            obtain ⟨f, g, hf, hg, hsame⟩ := hrel
            simp only [Option.map_some, Function.comp_apply, Nested.item_map, stated, hf, hg,
              fieldsOf, hsame.factsOf_eq]

theorem treePath_eq {fields fields' : Fields}
    (h : Fields.getD fields "path" = Fields.getD fields' "path") (path : Option String) :
    treePath fields path = treePath fields' path := by
  unfold treePath
  rw [h]

/-! ## The main result -/

/-- **The tree of a document is the document in reading order**, and nothing in the document
counts for it but the path and the fields that roots, nodes and symbols have. -/
theorem decode_flattens_document {document : Value} {path : Option String} {t : Tree}
    (h : decode document path = .ok t) :
    ∃ root, root? document = some root ∧ t.path = treePath (fieldsOf document) path ∧
      Flattens (contents (.object root)) t ∧
      ∀ document', SameDocument document document' → decode document' path = .ok t := by
  have hsnapshot := isSnapshot_of_decode h
  have ⟨root, hroot, hisRoot, hnodes⟩ := hsnapshot
  have hdecode := decode_of_isSnapshot hroot hsnapshot path
  obtain rfl : treeBelow (treePath (fieldsOf document) path) root = t :=
    Except.ok.inj (hdecode.symm.trans h)
  refine ⟨root, hroot, path_ofNested _ _ _, flattens_treeBelow _ hnodes, ?_⟩
  rintro document' ⟨hpath, first, root', hfirst, hroot', hsameRoot, hbelow⟩
  obtain rfl : root = first := Option.some.inj (hroot.symm.trans hfirst)
  have hsnapshot' : IsSnapshot document' :=
    ⟨root', hroot', hsameRoot.isRoot hisRoot, hbelow.isNode hnodes⟩
  rw [decode_of_isSnapshot hroot' hsnapshot', treeBelow, treeBelow, treePath_eq hpath,
    documentOutline_eq hsameRoot hbelow]

/-- A class with the given method. -/
def firstClass (method : Value) : Value :=
  .object [field "kind" (.text "class"), field "name" (.text "A"),
    field "children" (.list [method])]

/-- A class with nothing below it. -/
def secondClass : Value := .object [field "kind" (.text "class"), field "name" (.text "B")]

/-- A root with the two classes and with further fields. -/
def classRoot (more : Fields) (method : Value) : Fields :=
  more ++ [field "kind" (.text "compilation_unit"),
    field "children" (.list [firstClass method, secondClass])]

/-- A document with the two classes. -/
def classDocument (more : Fields) (method : Value) : Value :=
  .object [field "root" (.object (classRoot more method))]

/-- A method. -/
def plainMethod : Value :=
  .object [field "kind" (.text "method"), field "symbol" (.object [field "name" (.text "M")])]

/-- The same method with a colour, which its symbol has as well. -/
def colouredMethod : Value :=
  .object [field "kind" (.text "method"), field "colour" (.text "red"),
    field "symbol" (.object [field "colour" .null, field "name" (.text "M")])]

theorem sameDocument_coloured :
    SameDocument (classDocument [] plainMethod)
      (classDocument [field "name" (.int 5)] colouredMethod) := by
  refine ⟨rfl, _, _, rfl, rfl, ⟨rfl, .inl rfl, rfl⟩, ?_⟩
  refine sameBelow_contents (.cons ⟨⟨_, _, rfl, rfl, ?_⟩, ?_⟩
    (.cons ⟨⟨_, _, rfl, rfl, ?_⟩, sameBelow_contents .nil⟩ .nil))
  · exact ⟨List.map_inj_left.mp rfl, .inl rfl, .inl rfl, .inl rfl, rfl⟩
  · refine sameBelow_contents (.cons ⟨⟨_, _, rfl, rfl, ?_⟩, sameBelow_contents .nil⟩ .nil)
    refine ⟨List.map_inj_left.mp rfl, .inl rfl, .inl rfl, .inr ⟨_, _, rfl, rfl, ?_⟩, rfl⟩
    exact List.map_inj_left.mp rfl
  · exact ⟨List.map_inj_left.mp rfl, .inl rfl, .inl rfl, .inl rfl, rfl⟩

theorem contents_classRoot :
    contents (.object (classRoot [] plainMethod)) =
      .node (.object (classRoot [] plainMethod))
        [.node (firstClass plainMethod) [.node plainMethod []], .node secondClass []] := by
  have hmethod : contents plainMethod = .node plainMethod [] := contents_eq plainMethod
  have hsecond : contents secondClass = .node secondClass [] := contents_eq secondClass
  have hfirst : contents (firstClass plainMethod) =
      .node (firstClass plainMethod) [.node plainMethod []] := by
    rw [← hmethod]
    exact contents_eq (firstClass plainMethod)
  rw [← hfirst, ← hsecond]
  exact contents_eq (.object (classRoot [] plainMethod))

/-- Below the first class, which is node one, there is the method and nothing else. -/
theorem decode_flattens_document_classes :
    ∃ t, decode (classDocument [] plainMethod) none = .ok t ∧
      decode (classDocument [field "name" (.int 5)] colouredMethod) none = .ok t ∧
      t.size = 4 ∧ ∀ j, t.IsBelow 1 j ↔ j = 2 := by
  obtain ⟨t, ht⟩ : ∃ t, decode (classDocument [] plainMethod) none = .ok t := by
    rw [decode_of_root rfl, decodeRoot_eq_readRoot]
    exact ⟨_, rfl⟩
  obtain ⟨root, hroot, -, hflat, hsame⟩ := decode_flattens_document ht
  obtain rfl : classRoot [] plainMethod = root := Option.some.inj hroot
  rw [contents_classRoot] at hflat
  refine ⟨t, ht, hsame _ sameDocument_coloured, hflat.size, fun j => ?_⟩
  have hsize : (Nested.node (firstClass plainMethod) [.node plainMethod []]).size = 2 := rfl
  rw [hflat.below 1 [0] _ rfl rfl j, hsize]
  omega

end SeamLint.Snapshot
