import Mathlib.Data.List.Induction
import Mathlib.Logic.Relation
import SeamLint.Proofs.BuilderRuns
import SeamLint.Proofs.Preorder

set_option autoImplicit false

/-! # Trees grown from nested terms

A nested term is grown below a node by recursion: first its top is added, then what stands
below it. `Tree.ofNested` grows a whole file in this way, node by node, and each new node
changes the children of an earlier one. What it comes to is nevertheless the list of addresses,
node for node: the parent of a node stands at the position of the shorter address and its
children at the positions of the longer ones (`node_ofNested`). So everything below a node
stands right behind it (`isBelow_iff_block`).
-/

namespace SeamLint.Code

/-! ## Numbered nodes -/

namespace Nested

/-- The indices of terms that stand side by side, the first of them at `index`. -/
def starts {α : Type} (index : Nat) : List (Nested α) → List Nat
  | [] => []
  | d :: rest => index :: starts (index + d.size) rest

mutual

/-- The nodes of a term in reading order, the top at `index`. -/
def numbered (index : Nat) (parent : Option Nat) : Nested Facts → List Node
  | .node facts children =>
      { facts with index, parent, children := starts (index + 1) children } ::
        numberedAll (index + 1) (some index) children

/-- The nodes of terms below `parent` in reading order, the first of them at `index`. -/
def numberedAll (index : Nat) (parent : Option Nat) : List (Nested Facts) → List Node
  | [] => []
  | d :: rest => d.numbered index parent ++ numberedAll (index + d.size) parent rest

end

mutual

theorem length_numbered (index : Nat) (parent : Option Nat) :
    ∀ d : Nested Facts, (d.numbered index parent).length = d.size
  | .node facts children => by
      rw [numbered, List.length_cons, length_numberedAll, size]

theorem length_numberedAll (index : Nat) (parent : Option Nat) :
    ∀ ds : List (Nested Facts), (numberedAll index parent ds).length = sizeAll ds
  | [] => rfl
  | d :: rest => by
      rw [numberedAll, List.length_append, length_numbered, length_numberedAll, sizeAll]

end

end Nested

/-! ## Growing terms -/

namespace Nested

mutual

/-- Grows a term below the node `parent`. -/
def grow (parent : Nat) : Nested Facts → Builder → Builder
  | .node facts children, b => growAll b.size children (b.attach parent facts)

/-- Grows terms below the node `parent`, one after another. -/
def growAll (parent : Nat) : List (Nested Facts) → Builder → Builder
  | [], b => b
  | d :: rest, b => growAll parent rest (d.grow parent b)

end

end Nested

/-- The tree of a file with the given root span and terms below the root. -/
def Tree.ofNested (path : String) (span : Span) (ds : List (Nested Facts)) : Tree :=
  (Nested.growAll 0 ds ((Builder.start path).withSpan 0 span)).tree

theorem sound_attach {b : Builder} (h : b.Sound) {parent : Nat} (hlt : parent < b.size)
    (facts : Facts) : (b.attach parent facts).Sound := by
  have hadded := Builder.added_attach h hlt facts
  exact ⟨hadded.sizes, Builder.wellFormed_added h.wellFormed hlt hadded⟩

/-- A node with more children at the end. -/
def withChildren (children : List Nat) (n : Node) : Node :=
  { n with children := n.children ++ children }

theorem modify_append_of_lt {l₁ l₂ : List Node} {i : Nat} (h : i < l₁.length) (f : Node → Node) :
    (l₁ ++ l₂).modify i f = l₁.modify i f ++ l₂ := by
  induction l₁ generalizing i with
  | nil => simp at h
  | cons n l₁ ih =>
      cases i with
      | zero => rfl
      | succ i =>
          rw [List.cons_append, List.modify_succ_cons, ih (by simpa using h),
            List.modify_succ_cons, List.cons_append]

theorem modify_append_of_eq {l₁ l₂ : List Node} {i : Nat} (h : l₁.length = i) (n : Node)
    (f : Node → Node) : (l₁ ++ n :: l₂).modify i f = l₁ ++ f n :: l₂ := by
  subst h
  exact List.modifyTailIdx_add (List.modifyHead f) 0 l₁ (n :: l₂)

/-- A node with more children, and then with more again. -/
theorem modify_withChildren (l : List Node) (i : Nat) (as bs : List Nat) :
    (l.modify i (withChildren as)).modify i (withChildren bs) =
      l.modify i (withChildren (as ++ bs)) := by
  rw [List.modify_modify_eq]
  refine congrArg (l.modify i) (funext fun n => ?_)
  simp [withChildren, List.append_assoc]

theorem length_nodes_tree (b : Builder) : b.tree.nodes.toList.length = b.size := b.size_tree

theorem nodes_attach {b : Builder} (h : b.Sound) {parent : Nat} (hlt : parent < b.size)
    (facts : Facts) :
    (b.attach parent facts).tree.nodes.toList =
      b.tree.nodes.toList.modify parent (withChildren [b.size]) ++
        [{ facts with index := b.size, parent := some parent }] := by
  have hadded := Builder.added_attach h hlt facts
  have hlength := length_nodes_tree b
  refine List.ext_getElem? fun i => ?_
  rw [Array.getElem?_toList]
  rcases Nat.lt_trichotomy i b.size with hi | rfl | hi
  · rw [List.getElem?_append_left (by simpa [hlength] using hi), List.getElem?_modify,
      Array.getElem?_toList, hadded.old i (by simpa using hi)]
    by_cases hparent : i = parent
    · simp [hparent, withChildren]
    · simp [hparent, Ne.symm hparent]
  · have hnew := hadded.new
    rw [Builder.size_tree] at hnew
    rw [hnew, List.getElem?_append_right (by simp [hlength])]
    simp [hlength]
  · have hout : (b.attach parent facts).tree.size ≤ i := by
      rw [Builder.size_tree, Builder.size_attach]
      exact hi
    rw [Array.getElem?_eq_none hout, List.getElem?_eq_none]
    rw [List.length_append, List.length_modify, hlength]
    exact hi

namespace Nested

mutual

/-- Growing a term keeps a builder sound, puts the nodes of the term at the end and makes its
top the last child of its parent. -/
theorem nodes_grow {parent : Nat} (d : Nested Facts) {b : Builder} (h : b.Sound)
    (hlt : parent < b.size) :
    (d.grow parent b).Sound ∧ (d.grow parent b).tree.nodes.toList =
      b.tree.nodes.toList.modify parent (withChildren [b.size]) ++
        d.numbered b.size (some parent) := by
  cases d with
  | node facts children =>
      have hlength : (b.tree.nodes.toList.modify parent (withChildren [b.size])).length
          = b.size := by rw [List.length_modify, length_nodes_tree]
      obtain ⟨hsound, hgrow⟩ := nodes_growAll children (sound_attach h hlt facts)
        (show b.size < _ by simp)
      -- the new node is the last one so far, and its children are added to it
      rw [nodes_attach h hlt, Builder.size_attach, modify_append_of_eq hlength] at hgrow
      rw [grow, hgrow, numbered, List.append_assoc]
      exact ⟨hsound, rfl⟩

/-- Growing terms keeps a builder sound, puts their nodes at the end, one term after another,
and makes their tops the last children of their parent. -/
theorem nodes_growAll {parent : Nat} (ds : List (Nested Facts)) {b : Builder} (h : b.Sound)
    (hlt : parent < b.size) :
    (growAll parent ds b).Sound ∧ (growAll parent ds b).tree.nodes.toList =
      b.tree.nodes.toList.modify parent (withChildren (starts b.size ds)) ++
        numberedAll b.size (some parent) ds := by
  cases ds with
  | nil =>
      have hsame : withChildren [] = id := by
        funext n
        simp [withChildren]
      refine ⟨h, ?_⟩
      simp [growAll, starts, numberedAll, hsame, List.modify_id]
  | cons d rest =>
      have hlength : (b.tree.nodes.toList.modify parent (withChildren [b.size])).length
          = b.size := by rw [List.length_modify, length_nodes_tree]
      obtain ⟨hfirst, hnodes⟩ := nodes_grow d h hlt
      have hsize : (d.grow parent b).size = b.size + d.size := by
        rw [← length_nodes_tree, hnodes, List.length_append, hlength, length_numbered]
      obtain ⟨hsound, hrest⟩ := nodes_growAll rest hfirst (show parent < _ by omega)
      rw [hnodes, hsize, modify_append_of_lt (by omega), modify_withChildren] at hrest
      rw [growAll, hrest, numberedAll, List.append_assoc]
      exact ⟨hsound, rfl⟩

end

end Nested

/-! ## Numbered nodes by address -/

namespace Nested

/-- The node that stands at an address when the top has the given index and parent. -/
def nodeAt? (index : Nat) (parent : Option Nat) (d : Nested Facts) (a : List Nat) : Option Node :=
  (d.at? a).map fun part =>
    { part.item with
      index := index + position a d
      parent := if a = [] then parent else some (index + position a.dropLast d)
      children := (List.range part.children.length).map fun j => index + position (a ++ [j]) d }

/-- Below a child, addresses are counted from the index of the child. -/
theorem nodeAt?_child {d child : Nested Facts} {before after : List (Nested Facts)}
    (h : d.children = before ++ child :: after) (index : Nat) (parent : Option Nat)
    (a : List Nat) :
    nodeAt? index parent d (before.length :: a) =
      nodeAt? (index + 1 + sizeAll before) (some index) child a := by
  have hposition (b : List Nat) : index + position (before.length :: b) d =
      index + 1 + sizeAll before + position b child := by
    rw [position_child h]
    omega
  have hparent : (if before.length :: a = [] then parent
        else some (index + position (before.length :: a).dropLast d)) =
      if a = [] then some index
        else some (index + 1 + sizeAll before + position a.dropLast child) := by
    cases a with
    | nil => rfl
    | cons i a => simp only [List.dropLast_cons_cons, hposition, reduceCtorEq, if_false]
  unfold nodeAt?
  rw [at?_cons (getElem?_children h), hparent]
  simp only [List.cons_append, hposition]

theorem starts_eq {d : Nested Facts} (index : Nat) (before after : List (Nested Facts))
    (h : d.children = before ++ after) :
    starts (index + 1 + sizeAll before) after =
      (List.range' before.length after.length).map fun j => index + position [j] d := by
  induction after generalizing before with
  | nil => rfl
  | cons child after ih =>
      have hfirst : index + 1 + sizeAll before = index + position [before.length] d := by
        rw [position_child h, position_nil]
        omega
      have hrest := ih (before ++ [child]) (by simp [h])
      rw [sizeAll_concat, ← Nat.add_assoc, List.length_append, List.length_singleton] at hrest
      rw [starts, hrest, List.length_cons, List.range'_succ, List.map_cons, hfirst]

/-- The numbered nodes of the children of `d` that come after `before`. -/
theorem numberedAll_eq {d : Nested Facts} (index : Nat) (parent : Option Nat)
    (before after : List (Nested Facts)) (h : d.children = before ++ after)
    (ih : ∀ child ∈ after, ∀ (i : Nat) (p : Option Nat),
      (child.numbered i p).map some = child.addresses.map (nodeAt? i p child)) :
    (numberedAll (index + 1 + sizeAll before) (some index) after).map some =
      (addressesFrom before.length after).map (nodeAt? index parent d) := by
  induction after generalizing before with
  | nil => rfl
  | cons child after ihafter =>
      have hchild : (child.addresses.map (before.length :: ·)).map (nodeAt? index parent d) =
          child.addresses.map (nodeAt? (index + 1 + sizeAll before) (some index) child) := by
        rw [List.map_map]
        exact List.map_congr_left fun a _ => nodeAt?_child h index parent a
      have hafter := ihafter (before ++ [child]) (by simp [h])
        fun c hc => ih c (List.mem_cons_of_mem _ hc)
      rw [sizeAll_concat, ← Nat.add_assoc, List.length_append, List.length_singleton] at hafter
      rw [numberedAll, List.map_append, ih child List.mem_cons_self, hafter, addressesFrom,
        List.map_append, hchild]

/-- **Nodes that are numbered one after another stand at their addresses.** -/
theorem numbered_eq (d : Nested Facts) (index : Nat) (parent : Option Nat) :
    (d.numbered index parent).map some = d.addresses.map (nodeAt? index parent d) := by
  induction d using Nested.induction generalizing index parent with
  | step d ih =>
      have hbelow := numberedAll_eq index parent [] d.children rfl ih
      have hstarts := starts_eq index [] d.children rfl
      simp only [sizeAll, Nat.add_zero, List.length_nil] at hbelow hstarts
      rw [addresses_eq, List.map_cons, ← hbelow]
      cases d with
      | node facts children =>
          rw [numbered, List.map_cons]
          refine congrArg (· :: _) ?_
          simp only [nodeAt?, at?, Option.map_some, position_nil, List.nil_append, Nat.add_zero,
            if_true, List.range_eq_range', ← hstarts]
          rfl

end Nested

/-- A file as a nested term: its root over what stands below it. -/
def fileOutline (span : Span) (ds : List (Nested Facts)) : Nested Facts :=
  .node { Builder.rootFacts with span } ds

/-- A builder whose root has a span. -/
theorem sound_rooted (path : String) (span : Span) :
    ((Builder.start path).withSpan 0 span).Sound := by
  have hstart := Builder.sound_start path
  have hset := Builder.spanSet_withSpan (Builder.start path) 0 span
  refine ⟨?_, Builder.wellFormed_spanSet hstart.wellFormed hset⟩
  rw [hset.children, hset.size, hstart.sizes]

theorem wellFormed_ofNested (path : String) (span : Span) (ds : List (Nested Facts)) :
    (Tree.ofNested path span ds).WellFormed :=
  (Nested.nodes_growAll ds (sound_rooted path span) Nat.one_pos).1.wellFormed

/-- **A grown tree is its outline in reading order.** -/
theorem nodes_ofNested (path : String) (span : Span) (ds : List (Nested Facts)) :
    (Tree.ofNested path span ds).nodes.toList.map some =
      (fileOutline span ds).addresses.map (Nested.nodeAt? 0 none (fileOutline span ds)) := by
  rw [← Nested.numbered_eq]
  refine congrArg (List.map some) ?_
  exact (Nested.nodes_growAll ds (sound_rooted path span) Nat.one_pos).2

theorem size_ofNested (path : String) (span : Span) (ds : List (Nested Facts)) :
    (Tree.ofNested path span ds).size = (fileOutline span ds).size := by
  have hlength := congrArg List.length (nodes_ofNested path span ds)
  rwa [List.length_map, List.length_map, Nested.length_addresses] at hlength

/-- **The node at an address** of a grown tree: its parent and its children are the nodes at
the next shorter and the next longer addresses. -/
theorem node_ofNested {path : String} {span : Span} {ds : List (Nested Facts)} {i : Nat}
    {a : List Nat} {part : Nested Facts} (hi : (fileOutline span ds).addresses[i]? = some a)
    (hpart : Nested.at? a (fileOutline span ds) = some part) :
    (Tree.ofNested path span ds).nodes[i]? = some
      { part.item with
        index := i
        parent :=
          if a = [] then none else some ((fileOutline span ds).addresses.idxOf a.dropLast)
        children := (List.range part.children.length).map fun k =>
          (fileOutline span ds).addresses.idxOf (a ++ [k]) } := by
  have hget := congrArg (·[i]?) (nodes_ofNested path span ds)
  -- positions are places in the list of addresses, where the addresses lead to nodes
  generalize fileOutline span ds = d at *
  have hparent : (if a = [] then none else some (d.addresses.idxOf a.dropLast)) =
      if a = [] then none else some (Nested.position a.dropLast d) := by
    split
    · rfl
    · next hne =>
        refine congrArg some (Nested.idxOf_addresses ?_)
        refine Nested.mem_addresses_of_append (b := [a.getLast hne]) ?_
        rw [List.dropLast_append_getLast hne]
        exact List.mem_of_getElem? hi
  have hchildren : ∀ k ∈ List.range part.children.length,
      d.addresses.idxOf (a ++ [k]) = Nested.position (a ++ [k]) d := by
    intro k hk
    refine Nested.idxOf_addresses ((Nested.append_mem_addresses hpart).mpr ?_)
    exact Nested.singleton_mem_addresses.mpr (List.mem_range.mp hk)
  simp only [List.getElem?_map, hi, Option.map_some, Nested.nodeAt?, hpart, Nat.zero_add,
    Nested.position_of_getElem? hi] at hget
  rw [hparent, List.map_congr_left hchildren]
  cases hnode : (Tree.ofNested path span ds).nodes[i]? with
  | none => simp [hnode] at hget
  | some n => simpa [hnode] using hget

mutual

theorem Nested.path_grow (parent : Nat) (d : Nested Facts) (b : Builder) :
    (d.grow parent b).path = b.path := by
  cases d with
  | node facts children =>
      rw [grow, path_growAll]
      rfl

theorem Nested.path_growAll (parent : Nat) (ds : List (Nested Facts)) (b : Builder) :
    (growAll parent ds b).path = b.path := by
  cases ds with
  | nil => rfl
  | cons d rest => rw [growAll, path_growAll, path_grow]

end

theorem path_ofNested (path : String) (span : Span) (ds : List (Nested Facts)) :
    (Tree.ofNested path span ds).path = path :=
  Nested.path_growAll 0 ds ((Builder.start path).withSpan 0 span)

/-! ## What lies below a node -/

/-- Node `i` has node `j` as a child. -/
def Tree.IsChild (t : Tree) (i j : Nat) : Prop := ∃ n, t.nodes[i]? = some n ∧ j ∈ n.children

/-- Node `j` is reached from node `i` through children. -/
def Tree.IsBelow (t : Tree) : Nat → Nat → Prop := Relation.TransGen t.IsChild

section Below

variable {path : String} {span : Span} {ds : List (Nested Facts)} {i j : Nat}

theorem isChild_ofNested :
    (Tree.ofNested path span ds).IsChild i j ↔
      ∃ a k, (fileOutline span ds).addresses[i]? = some a ∧
        (fileOutline span ds).addresses[j]? = some (a ++ [k]) := by
  constructor
  · rintro ⟨n, hn, hj⟩
    have hlt : i < (fileOutline span ds).addresses.length := by
      rw [Nested.length_addresses, ← size_ofNested path]
      exact (Array.getElem?_eq_some_iff.mp hn).1
    obtain ⟨a, hi⟩ : ∃ a, (fileOutline span ds).addresses[i]? = some a :=
      ⟨_, List.getElem?_eq_getElem hlt⟩
    obtain ⟨part, hpart⟩ : ∃ part, Nested.at? a (fileOutline span ds) = some part :=
      Option.isSome_iff_exists.mp (Nested.mem_addresses.mp (List.mem_of_getElem? hi))
    rw [node_ofNested hi hpart] at hn
    obtain rfl := Option.some.inj hn
    obtain ⟨k, hk, rfl⟩ := List.mem_map.mp hj
    have hmem : a ++ [k] ∈ (fileOutline span ds).addresses := by
      rw [Nested.append_mem_addresses hpart]
      exact Nested.singleton_mem_addresses.mpr (List.mem_range.mp hk)
    exact ⟨a, k, hi, List.getElem?_idxOf hmem⟩
  · rintro ⟨a, k, hi, hj⟩
    obtain ⟨part, hpart⟩ : ∃ part, Nested.at? a (fileOutline span ds) = some part :=
      Option.isSome_iff_exists.mp (Nested.mem_addresses.mp (List.mem_of_getElem? hi))
    have hmem := List.mem_of_getElem? hj
    refine ⟨_, node_ofNested hi hpart, List.mem_map.mpr ⟨k, ?_, ?_⟩⟩
    · rw [Nested.append_mem_addresses hpart] at hmem
      exact List.mem_range.mpr (Nested.singleton_mem_addresses.mp hmem)
    · rw [Nested.idxOf_addresses hmem, Nested.position_of_getElem? hj]

theorem isBelow_ofNested :
    (Tree.ofNested path span ds).IsBelow i j ↔
      ∃ a b, (fileOutline span ds).addresses[i]? = some a ∧ b ≠ [] ∧
        (fileOutline span ds).addresses[j]? = some (a ++ b) := by
  constructor
  · intro h
    induction h with
    | single hchild =>
        obtain ⟨a, k, hi, hj⟩ := isChild_ofNested.mp hchild
        exact ⟨a, [k], hi, List.cons_ne_nil k [], hj⟩
    | tail _ hchild ih =>
        obtain ⟨a, b, hi, -, hb⟩ := ih
        obtain ⟨a', k, ha', hj⟩ := isChild_ofNested.mp hchild
        obtain rfl : a ++ b = a' := Option.some.inj (hb.symm.trans ha')
        exact ⟨a, b ++ [k], hi, List.concat_ne_nil k b, by rwa [← List.append_assoc]⟩
  · rintro ⟨a, b, hi, hne, hj⟩
    -- one child after the other, along the address below node `i`
    induction b using List.reverseRecOn generalizing j with
    | nil => exact absurd rfl hne
    | append_singleton b k ih =>
        rw [← List.append_assoc] at hj
        cases b with
        | nil =>
            rw [List.append_nil] at hj
            exact .single (isChild_ofNested.mpr ⟨a, k, hi, hj⟩)
        | cons l b =>
            have hmem := Nested.mem_addresses_of_append (List.mem_of_getElem? hj)
            obtain ⟨m, hm⟩ := List.mem_iff_getElem?.mp hmem
            exact .tail (ih (List.cons_ne_nil l b) hm) (isChild_ofNested.mpr ⟨_, k, hm, hj⟩)

/-- **What lies below a node is the block that follows it.** -/
theorem isBelow_iff_block {a : List Nat} {part : Nested Facts}
    (hi : (fileOutline span ds).addresses[i]? = some a)
    (hpart : Nested.at? a (fileOutline span ds) = some part) :
    (Tree.ofNested path span ds).IsBelow i j ↔ i < j ∧ j < i + part.size := by
  rw [isBelow_ofNested, ← Nested.exists_below_iff hi hpart]
  constructor
  · rintro ⟨a', b, ha', hne, hj⟩
    obtain rfl : a = a' := Option.some.inj (hi.symm.trans ha')
    exact ⟨b, hne, hj⟩
  · rintro ⟨b, hne, hj⟩
    exact ⟨a, b, hi, hne, hj⟩

end Below

end SeamLint.Code
