import Mathlib.Data.List.Basic
import Mathlib.Data.List.Nodup

set_option autoImplicit false

/-! # Reading order

A nested term has one *address* for each of its nodes: the positions of the children that
lead to it. `Nested.addresses` lists them in reading order, a node before everything below it
and everything below it before its next sibling. The place of an address in that list is
`Nested.position`, which counts the nodes that come before it (`map_position_addresses`).

The nodes below an address follow it as one block (`exists_below_iff`).
-/

namespace SeamLint.Code

/-- A node with everything below it. -/
inductive Nested (α : Type) where
  | node (item : α) (children : List (Nested α))

namespace Nested

variable {α : Type}

/-- What stands at the top. -/
def item : Nested α → α
  | .node item _ => item

/-- What stands right below the top, in order. -/
def children : Nested α → List (Nested α)
  | .node _ children => children

mutual

/-- The number of nodes. -/
def size : Nested α → Nat
  | .node _ children => sizeAll children + 1

/-- The number of nodes of several terms. -/
def sizeAll : List (Nested α) → Nat
  | [] => 0
  | d :: rest => d.size + sizeAll rest

end

/-- The part at an address. -/
def at? : List Nat → Nested α → Option (Nested α)
  | [], d => some d
  | i :: a, d => d.children[i]?.bind (at? a)

mutual

/-- All addresses, in reading order. -/
def addresses : Nested α → List (List Nat)
  | .node _ children => [] :: addressesFrom 0 children

/-- All addresses in terms that stand side by side, the first of them at position `i`. -/
def addressesFrom (i : Nat) : List (Nested α) → List (List Nat)
  | [] => []
  | d :: rest => d.addresses.map (i :: ·) ++ addressesFrom (i + 1) rest

end

/-- The number of nodes that are read before the one at an address. -/
def position : List Nat → Nested α → Nat
  | [], _ => 0
  | i :: a, d =>
      match d.children[i]? with
      | some child => 1 + sizeAll (d.children.take i) + position a child
      | none => 0

/-- Induction over nested terms: a fact about all children becomes one about the whole. -/
theorem induction {motive : Nested α → Prop}
    (step : ∀ d : Nested α, (∀ child ∈ d.children, motive child) → motive d) (d : Nested α) :
    motive d := by
  refine @Nested.rec α motive (fun ds => ∀ child ∈ ds, motive child) ?_ ?_ ?_ d
  · intro item children h
    exact step (.node item children) h
  · intro child h
    cases h
  · intro head tail hhead htail
    exact List.forall_mem_cons.mpr ⟨hhead, htail⟩

/-! ## Addresses and parts -/

theorem size_eq (d : Nested α) : d.size = 1 + sizeAll d.children := by
  cases d
  simp [size, children, Nat.add_comm]

theorem addresses_eq (d : Nested α) : d.addresses = [] :: addressesFrom 0 d.children := by
  cases d
  rfl

theorem sizeAll_concat (ds : List (Nested α)) (d : Nested α) :
    sizeAll (ds ++ [d]) = sizeAll ds + d.size := by
  induction ds with
  | nil => simp [sizeAll]
  | cons e ds ih => simp [sizeAll, ih, Nat.add_assoc]

theorem position_nil (d : Nested α) : position [] d = 0 := rfl

theorem position_cons {d child : Nested α} {i : Nat} (h : d.children[i]? = some child)
    (a : List Nat) : position (i :: a) d = 1 + sizeAll (d.children.take i) + position a child := by
  simp [position, h]

theorem at?_cons {d child : Nested α} {i : Nat} (h : d.children[i]? = some child) (a : List Nat) :
    at? (i :: a) d = at? a child := by
  simp [at?, h]

/-- The part at a longer address is found in the part at a shorter one. -/
theorem at?_append (a b : List Nat) (d : Nested α) :
    at? (a ++ b) d = (at? a d).bind (at? b) := by
  induction a generalizing d with
  | nil => rfl
  | cons i a ih =>
      simp only [List.cons_append, at?]
      cases d.children[i]? with
      | none => rfl
      | some child => exact ih child

theorem mem_addressesFrom {i : Nat} {a : List Nat} {ds : List (Nested α)} :
    a ∈ addressesFrom i ds ↔
      ∃ j child, ds[j]? = some child ∧ ∃ b ∈ child.addresses, a = (i + j) :: b := by
  induction ds generalizing i with
  | nil => simp [addressesFrom]
  | cons d ds ih =>
      rw [addressesFrom, List.mem_append, List.mem_map, ih]
      constructor
      · rintro (⟨b, hb, rfl⟩ | ⟨j, child, hj, b, hb, rfl⟩)
        · exact ⟨0, d, rfl, b, hb, rfl⟩
        · exact ⟨j + 1, child, by simpa using hj, b, hb, by rw [Nat.add_assoc, Nat.add_comm 1 j]⟩
      · rintro ⟨j, child, hj, b, hb, rfl⟩
        cases j with
        | zero =>
            obtain rfl : d = child := by simpa using hj
            exact Or.inl ⟨b, hb, rfl⟩
        | succ j =>
            refine Or.inr ⟨j, child, by simpa using hj, b, hb, ?_⟩
            rw [Nat.add_assoc, Nat.add_comm 1 j]

/-- The addresses are those at which there is something. -/
theorem mem_addresses {a : List Nat} {d : Nested α} :
    a ∈ d.addresses ↔ (at? a d).isSome = true := by
  induction a generalizing d with
  | nil => simp [addresses_eq, at?]
  | cons i a ih =>
      rw [addresses_eq, List.mem_cons, mem_addressesFrom]
      simp only [at?, Nat.zero_add, List.cons.injEq, reduceCtorEq, false_or]
      constructor
      · rintro ⟨j, child, hj, b, hb, rfl, rfl⟩
        rw [hj]
        exact ih.mp hb
      · intro h
        cases hchild : d.children[i]? with
        | none => simp [hchild] at h
        | some child =>
            rw [hchild] at h
            exact ⟨i, child, hchild, a, ih.mpr h, rfl, rfl⟩

/-! ## Positions -/

/-- The children of a term, split in front of one of them. -/
theorem getElem?_children {d child : Nested α} {before after : List (Nested α)}
    (h : d.children = before ++ child :: after) : d.children[before.length]? = some child := by
  simp [h]

theorem take_children {d child : Nested α} {before after : List (Nested α)}
    (h : d.children = before ++ child :: after) : d.children.take before.length = before := by
  simp [h]

theorem position_child {d child : Nested α} {before after : List (Nested α)}
    (h : d.children = before ++ child :: after) (a : List Nat) :
    position (before.length :: a) d = 1 + sizeAll before + position a child := by
  rw [position_cons (getElem?_children h), take_children h]

/-- Positions in the children of `d` that come after `before`. -/
theorem map_position_addressesFrom {d : Nested α} (before after : List (Nested α))
    (h : d.children = before ++ after)
    (ih : ∀ child ∈ after, child.addresses.map (position · child) = List.range child.size) :
    (addressesFrom before.length after).map (position · d) =
      List.range' (1 + sizeAll before) (sizeAll after) := by
  induction after generalizing before with
  | nil => rfl
  | cons child after ihafter =>
      have hchild : (child.addresses.map (before.length :: ·)).map (position · d) =
          List.range' (1 + sizeAll before) child.size := by
        rw [List.map_map]
        calc child.addresses.map ((position · d) ∘ (before.length :: ·))
            = (child.addresses.map (position · child)).map (1 + sizeAll before + ·) := by
              rw [List.map_map]
              exact List.map_congr_left fun a _ => position_child h a
          _ = List.range' (1 + sizeAll before) child.size := by
              rw [ih child List.mem_cons_self, List.range_eq_range', List.map_add_range']
              simp
      have hafter := ihafter (before ++ [child]) (by simp [h])
        fun c hc => ih c (List.mem_cons_of_mem _ hc)
      rw [sizeAll_concat, ← Nat.add_assoc, List.length_append, List.length_singleton] at hafter
      rw [addressesFrom, List.map_append, hchild, hafter, sizeAll, List.range'_append_1]

/-- **The addresses in reading order stand at the positions `0`, `1`, `2` and so on.** -/
theorem map_position_addresses (d : Nested α) :
    d.addresses.map (position · d) = List.range d.size := by
  induction d using Nested.induction with
  | step d ih =>
      have hbelow := map_position_addressesFrom [] d.children rfl ih
      rw [addresses_eq, List.map_cons, size_eq, Nat.add_comm, List.range_eq_range',
        List.range'_succ]
      simpa [position, sizeAll] using hbelow

theorem length_addresses (d : Nested α) : d.addresses.length = d.size := by
  simpa using congrArg List.length (map_position_addresses d)

theorem nodup_addresses (d : Nested α) : d.addresses.Nodup := by
  refine List.Nodup.of_map (position · d) ?_
  rw [map_position_addresses]
  exact List.nodup_range

/-- An address stands at its position. -/
theorem position_of_getElem? {d : Nested α} {i : Nat} {a : List Nat}
    (h : d.addresses[i]? = some a) : position a d = i := by
  have hlt : i < d.size := by
    rw [← length_addresses]
    exact (List.getElem?_eq_some_iff.mp h).1
  have hmap := congrArg (·[i]?) (map_position_addresses d)
  simpa [h, hlt] using hmap

theorem getElem?_position {d : Nested α} {a : List Nat} (h : a ∈ d.addresses) :
    d.addresses[position a d]? = some a := by
  obtain ⟨i, hi⟩ := List.mem_iff_getElem?.mp h
  rw [position_of_getElem? hi, hi]

theorem idxOf_addresses {d : Nested α} {a : List Nat} (h : a ∈ d.addresses) :
    d.addresses.idxOf a = position a d := by
  obtain ⟨i, hi⟩ := List.mem_iff_getElem?.mp h
  obtain ⟨hlt, hget⟩ := List.getElem?_eq_some_iff.mp hi
  rw [position_of_getElem? hi, ← hget, (nodup_addresses d).idxOf_getElem i hlt]

/-! ## Parts are blocks -/

theorem position_lt {d : Nested α} {a : List Nat} (h : a ∈ d.addresses) :
    position a d < d.size := by
  rw [← length_addresses]
  exact (List.getElem?_eq_some_iff.mp (getElem?_position h)).1

/-- Positions inside a part count from the position of the part. -/
theorem position_append {d part : Nested α} {a : List Nat} (h : at? a d = some part)
    (b : List Nat) : position (a ++ b) d = position a d + position b part := by
  induction a generalizing d with
  | nil =>
      obtain rfl : d = part := by simpa [at?] using h
      simp [position]
  | cons i a ih =>
      cases hchild : d.children[i]? with
      | none => simp [at?, hchild] at h
      | some child =>
          rw [at?_cons hchild] at h
          rw [List.cons_append, position_cons hchild, position_cons hchild, ih h]
          omega

theorem append_mem_addresses {d part : Nested α} {a : List Nat} (h : at? a d = some part)
    {b : List Nat} : a ++ b ∈ d.addresses ↔ b ∈ part.addresses := by
  rw [mem_addresses, mem_addresses, at?_append, h, Option.bind_some]

theorem singleton_mem_addresses {d : Nested α} {k : Nat} :
    [k] ∈ d.addresses ↔ k < d.children.length := by
  rw [mem_addresses, at?]
  cases hk : d.children[k]? with
  | none => simpa using hk
  | some child => simpa [at?] using (List.getElem?_eq_some_iff.mp hk).1

/-- Shorter addresses lead to nodes as well. -/
theorem mem_addresses_of_append {d : Nested α} {a b : List Nat} (h : a ++ b ∈ d.addresses) :
    a ∈ d.addresses := by
  rw [mem_addresses, at?_append] at h
  rw [mem_addresses]
  exact Option.isSome_of_isSome_bind h

theorem position_eq_zero {d : Nested α} {a : List Nat} (h : a ∈ d.addresses) :
    position a d = 0 ↔ a = [] := by
  constructor
  · intro hzero
    have hfirst := getElem?_position h
    rw [hzero, addresses_eq, List.getElem?_cons_zero] at hfirst
    exact (Option.some.inj hfirst).symm
  · rintro rfl
    rfl

/-- **A part is a block**: the addresses below the address of a part are those that follow it
in reading order, as many as the part has nodes below its top. -/
theorem exists_below_iff {d part : Nested α} {i j : Nat} {a : List Nat}
    (hi : d.addresses[i]? = some a) (hpart : at? a d = some part) :
    (∃ b, b ≠ [] ∧ d.addresses[j]? = some (a ++ b)) ↔ i < j ∧ j < i + part.size := by
  have hposition (b : List Nat) : position (a ++ b) d = i + position b part := by
    rw [position_append hpart, position_of_getElem? hi]
  constructor
  · rintro ⟨b, hne, hj⟩
    have hb : b ∈ part.addresses :=
      (append_mem_addresses hpart).mp (List.mem_of_getElem? hj)
    have hlt := position_lt hb
    have hpos : position b part ≠ 0 := fun hzero => hne ((position_eq_zero hb).mp hzero)
    have hindex := position_of_getElem? hj
    rw [hposition] at hindex
    omega
  · rintro ⟨hlt, hsize⟩
    have hlength : j - i < part.addresses.length := by
      rw [length_addresses]
      omega
    obtain ⟨b, hb⟩ : ∃ b, part.addresses[j - i]? = some b :=
      ⟨_, List.getElem?_eq_getElem hlength⟩
    have hmem : b ∈ part.addresses := List.mem_of_getElem? hb
    have hindex : position (a ++ b) d = j := by
      rw [hposition, position_of_getElem? hb]
      omega
    refine ⟨b, ?_, ?_⟩
    · intro hnil
      have hzero := (position_eq_zero hmem).mpr hnil
      rw [position_of_getElem? hb] at hzero
      omega
    · rw [← hindex]
      exact getElem?_position ((append_mem_addresses hpart).mpr hmem)

/-! ## What stands at the nodes -/

mutual

/-- What stands at the nodes, in reading order. -/
def items : Nested α → List α
  | .node item children => item :: itemsAll children

/-- What stands at the nodes of several terms. -/
def itemsAll : List (Nested α) → List α
  | [] => []
  | d :: rest => d.items ++ itemsAll rest

end

theorem items_eq (d : Nested α) : d.items = d.item :: itemsAll d.children := by
  cases d
  rfl

theorem mem_itemsAll {x : α} {ds : List (Nested α)} :
    x ∈ itemsAll ds ↔ ∃ d ∈ ds, x ∈ d.items := by
  induction ds with
  | nil => simp [itemsAll]
  | cons d ds ih => simp [itemsAll, ih]

/-- What stands at a node stands at the top of the part at some address. -/
theorem mem_items {x : α} {d : Nested α} :
    x ∈ d.items ↔ ∃ a part, at? a d = some part ∧ part.item = x := by
  induction d using Nested.induction with
  | step d ih =>
      rw [items_eq, List.mem_cons, mem_itemsAll]
      constructor
      · rintro (rfl | ⟨child, hchild, hx⟩)
        · exact ⟨[], d, rfl, rfl⟩
        · obtain ⟨i, hi⟩ := List.mem_iff_getElem?.mp hchild
          obtain ⟨a, part, ha, hpart⟩ := (ih child hchild).mp hx
          exact ⟨i :: a, part, (at?_cons hi a).trans ha, hpart⟩
      · rintro ⟨a, part, ha, hpart⟩
        cases a with
        | nil =>
            obtain rfl : d = part := by simpa [at?] using ha
            exact .inl hpart.symm
        | cons i a =>
            obtain ⟨child, hi, ha⟩ := Option.bind_eq_some_iff.mp ha
            have hchild := List.mem_of_getElem? hi
            exact .inr ⟨child, hchild, (ih child hchild).mpr ⟨a, part, ha, hpart⟩⟩

/-- What stands below the top stands at a longer address. -/
theorem mem_itemsAll_children {x : α} {d : Nested α} :
    x ∈ itemsAll d.children ↔ ∃ a part, a ≠ [] ∧ at? a d = some part ∧ part.item = x := by
  rw [mem_itemsAll]
  constructor
  · rintro ⟨child, hchild, hx⟩
    obtain ⟨i, hi⟩ := List.mem_iff_getElem?.mp hchild
    obtain ⟨a, part, ha, hpart⟩ := mem_items.mp hx
    exact ⟨i :: a, part, List.cons_ne_nil i a, (at?_cons hi a).trans ha, hpart⟩
  · rintro ⟨a, part, hne, ha, hpart⟩
    obtain ⟨i, a, rfl⟩ := List.exists_cons_of_ne_nil hne
    obtain ⟨child, hi, ha⟩ := Option.bind_eq_some_iff.mp ha
    exact ⟨child, List.mem_of_getElem? hi, mem_items.mpr ⟨a, part, ha, hpart⟩⟩

/-- Terms with the same at every address are equal. -/
theorem ext_at {d e : Nested α} (h : ∀ a, (at? a d).map item = (at? a e).map item) : d = e := by
  induction d using Nested.induction generalizing e with
  | step d ih =>
      have hitem : d.item = e.item := by simpa [at?] using h []
      have hchildren : d.children = e.children := by
        refine List.ext_getElem? fun i => ?_
        cases hd : d.children[i]? with
        | none =>
            have hnone : e.children[i]?.map item = none := by simpa [at?, hd] using (h [i]).symm
            exact (Option.map_eq_none_iff.mp hnone).symm
        | some child =>
            cases he : e.children[i]? with
            | none => simpa [at?, hd, he] using h [i]
            | some other =>
                refine congrArg some (ih child (List.mem_of_getElem? hd) fun a => ?_)
                simpa only [at?_cons hd, at?_cons he] using h (i :: a)
      cases d
      cases e
      exact congr (congrArg node hitem) hchildren

/-! ## Changing what stands at the nodes -/

variable {β : Type}

mutual

/-- Puts something else at every node. -/
def map (f : α → β) : Nested α → Nested β
  | .node item children => .node (f item) (mapAll f children)

/-- Puts something else at every node of several terms. -/
def mapAll (f : α → β) : List (Nested α) → List (Nested β)
  | [] => []
  | d :: rest => d.map f :: mapAll f rest

end

theorem mapAll_eq (f : α → β) (ds : List (Nested α)) : mapAll f ds = ds.map (map f) := by
  induction ds with
  | nil => rfl
  | cons d ds ih => rw [mapAll, ih, List.map_cons]

theorem item_map (f : α → β) (d : Nested α) : (d.map f).item = f d.item := by
  cases d
  rfl

theorem children_map (f : α → β) (d : Nested α) :
    (d.map f).children = d.children.map (map f) := by
  cases d
  exact mapAll_eq f _

theorem at?_map (f : α → β) (a : List Nat) (d : Nested α) :
    at? a (d.map f) = (at? a d).map (map f) := by
  induction a generalizing d with
  | nil => rfl
  | cons i a ih =>
      rw [at?, at?, children_map, List.getElem?_map]
      cases d.children[i]? with
      | none => rfl
      | some child => exact ih child

mutual

theorem size_map (f : α → β) : ∀ d : Nested α, (d.map f).size = d.size
  | .node item children => by rw [map, size, size, sizeAll_mapAll]

theorem sizeAll_mapAll (f : α → β) : ∀ ds : List (Nested α), sizeAll (mapAll f ds) = sizeAll ds
  | [] => rfl
  | d :: rest => by rw [mapAll, sizeAll, sizeAll, size_map, sizeAll_mapAll]

end

mutual

theorem addresses_map (f : α → β) : ∀ d : Nested α, (d.map f).addresses = d.addresses
  | .node item children => by rw [map, addresses, addresses, addressesFrom_mapAll]

theorem addressesFrom_mapAll (f : α → β) (i : Nat) :
    ∀ ds : List (Nested α), addressesFrom i (mapAll f ds) = addressesFrom i ds
  | [] => rfl
  | d :: rest => by
      rw [mapAll, addressesFrom, addressesFrom, addresses_map, addressesFrom_mapAll]

end

end Nested

end SeamLint.Code
