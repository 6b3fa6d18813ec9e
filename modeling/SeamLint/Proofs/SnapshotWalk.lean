import SeamLint.Proofs.GrownTree
import SeamLint.Snapshot.Document

set_option autoImplicit false

/-! # Documents read by recursion

`Reading.run` goes through a document with a stack: it numbers the nodes as they come, pushes
the children of a node with its number, and looks up which index of the tree a number has got.
Here a document is read by recursion instead: a node, then everything below it, then its next
sibling (`readNode`), and its tree is grown from the nested term that comes out.

Both come to the same (`decodeRoot_eq_readRoot`). While the stack is worked off, numbers,
counts and indices are in step (`InStep`), which one step keeps (`inStep_taken`). What is left
to do is then to read the values on the stack by recursion, one after another, and to grow each
of them below the node that it stands below (`run_eq_readInto`).
-/

namespace SeamLint.Snapshot

open SeamLint.Code SeamLint.Data

/-! ## The recursive reading -/

mutual

/-- A node with everything below it. -/
def readNode : Value → Except Defect (Nested Facts)
  | .object fields => do
      let facts ← decodeFacts fields
      let children ← readChildren fields
      return .node facts children
  | raw => .error (.badNode raw)

/-- The nodes under the name `children`. -/
def readChildren : List (Key × Value) → Except Defect (List (Nested Facts))
  | [] => .ok []
  | (k, v) :: rest => if k.same (.text "children") then readChildList v else readChildren rest

/-- The nodes of a list of children; a value that does not count as given means none. -/
def readChildList : Value → Except Defect (List (Nested Facts))
  | .list items => readNodes items
  | raw => if raw.isGiven then .error (.badChildren raw) else .ok []

/-- The nodes, one after another. -/
def readNodes : List Value → Except Defect (List (Nested Facts))
  | [] => .ok []
  | v :: rest => do
      let d ← readNode v
      let ds ← readNodes rest
      return d :: ds

end

/-- The tree below a root object, read by recursion. -/
def readRoot (path : String) (root : Fields) : Except Defect Tree := do
  let kind ← decodeKind (Fields.getD root "kind")
  if kind ≠ .compilationUnit then throw .wrongRoot
  let span ← decodeSpan "span" (Fields.getD root "span")
  let ds ← readChildren root
  return .ofNested path (span.getD {}) ds

/-- The children of a node are read once their list has been found. -/
theorem readChildren_eq (fields : Fields) :
    readChildren fields = decodeChildren fields >>= readNodes := by
  have hlist : readChildren fields = readChildList (Fields.getD fields "children") := by
    induction fields with
    | nil => rfl
    | cons entry rest ih =>
        obtain ⟨k, v⟩ := entry
        unfold readChildren Fields.getD Fields.get? Fields.find?
        split
        · rfl
        · exact ih
  rw [hlist, decodeChildren]
  cases Fields.getD fields "children" with
  | list items =>
      rw [readChildList]
      rfl
  | _ =>
      simp only [readChildList]
      cases Value.isGiven _ <;> rfl

/-! ## What is left to do -/

/-- Reads values by recursion, one after another, and grows each below its node. -/
def readInto : List (Value × Option Nat) → Builder → Except Defect Builder
  | [], b => .ok b
  | (v, parent) :: rest, b => do
      let d ← readNode v
      readInto rest (d.grow (parent.getD 0) b)

theorem readInto_children (children : List Value) (parent : Nat)
    (rest : List (Value × Option Nat)) (b : Builder) :
    readInto (children.map (·, some parent) ++ rest) b =
      readNodes children >>= fun ds => readInto rest (Nested.growAll parent ds b) := by
  induction children generalizing b with
  | nil =>
      rw [readNodes]
      rfl
  | cons v children ih =>
      rw [List.map_cons, List.cons_append, readInto, readNodes]
      simp only [ih, bind_assoc, pure_bind, Option.getD_some, Nested.growAll]

/-- Reading a node by recursion is to take in its facts first and then to read its children. -/
theorem readInto_object (fields : Fields) (parent : Nat) (rest : List (Value × Option Nat))
    (b : Builder) :
    readInto ((.object fields, some parent) :: rest) b =
      decodeFacts fields >>= fun facts => decodeChildren fields >>= fun children =>
        readInto (children.map (·, some b.size) ++ rest) (b.attach parent facts) := by
  simp only [readInto, readNode, readChildren_eq, readInto_children, bind_assoc, pure_bind,
    Option.getD_some, Nested.grow]

/-! ## The invariant -/

/-- The next position, the number of nodes that have been read and the size of the tree agree,
every position is that of the index of the same number, and the nodes that the values on the
stack stand below are there. -/
structure Reading.InStep (r : Reading) : Prop where
  sound : r.builder.Sound
  position : r.position = r.builder.size
  count : r.count = r.builder.size
  positions : ∀ p < r.builder.size, r.positions.lookup p = some p
  stack : ∀ entry ∈ r.stack, ∃ p, entry.2 = some p ∧ p < r.builder.size

namespace Reading

/-- The state after a node with the given facts and children. -/
def taken (r : Reading) (parent : Nat) (facts : Facts) (children : List Value)
    (rest : List (Value × Option Nat)) : Reading where
  stack := children.map (·, some r.builder.size) ++ rest
  position := r.builder.size + 1
  count := r.builder.size + 1
  positions := (r.builder.size, r.builder.size) :: r.positions
  builder := r.builder.attach parent facts

variable {r : Reading}

/-- A step puts the node at the end of the tree and its children in front of all else. -/
theorem step_object (h : r.InStep) {parent : Nat} (hlt : parent < r.builder.size)
    (fields : Fields) (rest : List (Value × Option Nat)) :
    r.step (.object fields) (some parent) rest =
      decodeFacts fields >>= fun facts => decodeChildren fields >>= fun children =>
        .ok (r.taken parent facts children rest) := by
  have hadd (facts : Facts) : perform (Builder.add (some (parent : Int)) facts) r.builder =
      .ok (r.builder.size, r.builder.attach parent facts) := by
    rw [perform, Builder.run_add facts h.sound.sizes rfl hlt]
  have hpush (children : List Value) : pushAll rest (children.reverse.map (·, some r.position)) =
      children.map (·, some r.builder.size) ++ rest := by
    rw [pushAll_eq, ← List.map_reverse, List.reverse_reverse, h.position]
  simp only [step, take, h.positions parent hlt, hadd, bind_assoc]
  cases decodeFacts fields with
  | error defect => rfl
  | ok facts =>
      cases decodeChildren fields with
      | error defect => rfl
      | ok children =>
          show Except.ok (Reading.mk _ _ _ _ _) = _
          rw [hpush, h.position, h.count]
          rfl

/-- **A step keeps everything in step.** -/
theorem inStep_taken (h : r.InStep) {raw : Value} {parent : Nat}
    {rest : List (Value × Option Nat)} (hstack : r.stack = (raw, some parent) :: rest)
    (facts : Facts) (children : List Value) : (r.taken parent facts children rest).InStep := by
  have hlt : parent < r.builder.size := by
    obtain ⟨p, hp, hlt⟩ := h.stack (raw, some parent) (by rw [hstack]; exact List.mem_cons_self)
    rwa [Option.some.inj hp]
  constructor
  · exact sound_attach h.sound hlt facts
  · exact (Builder.size_attach ..).symm
  · exact (Builder.size_attach ..).symm
  · intro p hp
    rw [taken, Builder.size_attach] at hp
    rw [taken, List.lookup_cons]
    by_cases hlast : p = r.builder.size
    · simp [hlast]
    · rw [beq_false_of_ne hlast]
      exact h.positions p (by omega)
  · intro entry hentry
    rw [taken, Builder.size_attach]
    rcases List.mem_append.mp hentry with hentry | hentry
    · obtain ⟨v, -, rfl⟩ := List.mem_map.mp hentry
      exact ⟨_, rfl, Nat.lt_succ_self _⟩
    · obtain ⟨p, hp, hlt⟩ := h.stack entry (by rw [hstack]; exact List.mem_cons_of_mem _ hentry)
      exact ⟨p, hp, Nat.lt_succ_of_lt hlt⟩

theorem run_nil (hstack : r.stack = []) : r.run = .ok r.builder := by
  rw [run]
  split
  · rfl
  · next hcons => cases hstack.symm.trans hcons

theorem run_cons {raw : Value} {parent : Option Nat} {rest : List (Value × Option Nat)}
    (hstack : r.stack = (raw, parent) :: rest) : r.run = r.step raw parent rest >>= run := by
  rw [run]
  split
  · next hnil => cases hnil.symm.trans hstack
  · next hcons =>
      cases hstack.symm.trans hcons
      cases r.step raw parent rest <;> rfl

/-- **The stack is worked off as if it were read by recursion.** -/
theorem run_eq_readInto (h : r.InStep) : r.run = readInto r.stack r.builder := by
  -- by the size of what lies on the stack, which every step makes smaller
  induction hweight : weight r.stack using Nat.strong_induction_on generalizing r with
  | _ k ih =>
      cases hstack : r.stack with
      | nil => rw [run_nil hstack, readInto]
      | cons entry rest =>
          obtain ⟨raw, parent⟩ := entry
          obtain ⟨p, rfl, hlt⟩ := h.stack (raw, parent) (by rw [hstack]; exact List.mem_cons_self)
          rw [run_cons hstack]
          cases raw with
          | object fields =>
              have hstep := step_object h hlt fields rest
              rw [hstep, readInto_object]
              cases hfacts : decodeFacts fields with
              | error defect => rfl
              | ok facts =>
                  cases hchildren : decodeChildren fields with
                  | error defect => rfl
                  | ok children =>
                      rw [hfacts, hchildren] at hstep
                      have hless := weight_step_lt hstep
                      rw [← hstack, hweight] at hless
                      exact ih _ hless (inStep_taken h hstack facts children) rfl
          | _ => rfl

/-- The children of the root are read with everything in step. -/
theorem inStep_root {b : Builder} (h : b.Sound) (hsize : b.size = 1) (children : List Value) :
    Reading.InStep ⟨children.map (·, some 0), 1, 1, [(0, 0)], b⟩ := by
  refine ⟨h, hsize.symm, hsize.symm, fun p hp => ?_, fun entry hentry => ?_⟩
  · obtain rfl : p = 0 := by
      rw [hsize] at hp
      omega
    rfl
  · obtain ⟨v, -, rfl⟩ := List.mem_map.mp hentry
    exact ⟨0, rfl, by rw [hsize]; exact Nat.one_pos⟩

/-- A whole document below a builder that has a root and nothing else. -/
theorem run_root {b : Builder} (h : b.Sound) (hsize : b.size = 1) (root : Fields) :
    run { stack := [(.object root, none)], builder := b } =
      readChildren root >>= fun ds => .ok (Nested.growAll 0 ds b) := by
  rw [run_cons rfl, readChildren_eq]
  simp only [step, take, bind_assoc]
  cases decodeChildren root with
  | error defect => rfl
  | ok children =>
      show run ⟨pushAll [] (children.reverse.map (·, some 0)), 1, 1, [(0, 0)], b⟩ =
        readNodes children >>= _
      rw [pushAll_eq, ← List.map_reverse, List.reverse_reverse, List.append_nil,
        run_eq_readInto (inStep_root h hsize children)]
      have hinto := readInto_children children 0 [] b
      rwa [List.append_nil] at hinto

end Reading

theorem startWith_eq (path : String) (span : Option Span) :
    startWith path span = .ok ((Builder.start path).withSpan 0 (span.getD {})) := by
  cases span <;> rfl

/-- What follows the check of the root is the same, read with a stack and by recursion. -/
theorem run_startWith (path : String) (span : Option Span) (root : Fields) :
    (do
      let builder ← startWith path span
      let builder ← Reading.run { stack := [(.object root, none)], builder }
      return (← perform Builder.build builder).1) =
    (do return .ofNested path (span.getD {}) (← readChildren root) : Except Defect Tree) := by
  have hsound := sound_rooted path (span.getD {})
  rw [startWith_eq]
  show Reading.run _ >>= _ = _
  rw [Reading.run_root hsound rfl, bind_assoc]
  refine bind_congr fun ds => ?_
  have hgrown := (Nested.nodes_growAll ds hsound Nat.one_pos).1
  show perform Builder.build _ >>= _ = _
  rw [perform, Builder.run_build hgrown]
  rfl

/-- **Reading with a stack and reading by recursion come to the same.** -/
theorem decodeRoot_eq_readRoot (path : String) (root : Fields) :
    decodeRoot path root = readRoot path root := by
  unfold decodeRoot readRoot
  simp only [run_startWith]

end SeamLint.Snapshot
