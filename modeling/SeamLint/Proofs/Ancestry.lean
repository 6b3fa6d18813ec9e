import Mathlib.Logic.Relation
import SeamLint.Proofs.BuilderRuns
import SeamLint.Proofs.SnapshotGrammar
import SeamLint.Proofs.TreeWalks

set_option autoImplicit false

/-! # The nodes above a node

Trees that were built or decoded are well-formed (`wellFormed_of_isMade`), and in a well-formed
tree the nodes above a node are its parent and the nodes above that (`isAncestor_iff_of_parent`).
So they form a chain (`contains_total`), they are what the way up meets (`mem_wayUp_iff`), and
the first of them that satisfies a condition is the nearest one (`find?_wayUp_iff`).
-/

namespace SeamLint.Scan

open SeamLint.Code

/-! ## Trees that are made -/

/-- The tree was built by a builder that started with nothing, or decoded from a document. -/
def IsMade (t : Tree) : Prop :=
  (∃ path calls, .built t ∈ ((Builder.start path).run calls).1) ∨
  ∃ document path, Snapshot.decode document path = .ok t

theorem wellFormed_of_decode {document : Data.Value} {path : Option String} {t : Tree}
    (h : Snapshot.decode document path = .ok t) : t.WellFormed := by
  have hsnapshot := Snapshot.isSnapshot_of_decode h
  cases hroot : Snapshot.root? document with
  | none =>
      rw [Snapshot.decode_of_root?_eq_none hroot] at h
      cases h
  | some root =>
      rw [Snapshot.decode_of_isSnapshot hroot hsnapshot] at h
      rw [← Except.ok.inj h]
      exact wellFormed_ofNested _ _ _

theorem wellFormed_of_isMade {t : Tree} (h : IsMade t) : t.WellFormed := by
  rcases h with ⟨path, calls, hbuilt⟩ | ⟨document, path, hdecoded⟩
  · exact (Builder.sound_run (Builder.sound_start path) calls).2 t hbuilt
  · exact wellFormed_of_decode hdecoded

end SeamLint.Scan

namespace SeamLint.Code.Tree

/-! ## Places in a tree -/

/-- Node `a` stands above node `n`, which is reached from it through children. -/
def IsAncestor (t : Tree) (a n : Node) : Prop := a ∈ t.nodes ∧ t.IsBelow a.index n.index

/-- Node `n` is node `a` or is below it. -/
def Contains (t : Tree) (a n : Node) : Prop := a = n ∨ t.IsAncestor a n

/-- Node `m` is on the way from `u` down to `d`, to which `u` does not belong and `d` does. -/
def IsOnWay (t : Tree) (u d m : Node) : Prop := t.IsAncestor u m ∧ t.Contains m d

/-- Of the nodes above `n` whose kinds satisfy `p`, node `a` is the nearest: all others stand
above it. -/
structure IsNearest (t : Tree) (p : Kind → Prop) (n a : Node) : Prop where
  isAncestor : t.IsAncestor a n
  holds : p a.kind
  nearest : ∀ b, t.IsAncestor b n → p b.kind → t.Contains b a

namespace WellFormed

variable {t : Tree} {a b c d m n u : Node}

/-! ## One step up, one step down -/

/-- Children and parents are the two directions of one link. -/
theorem isChild_iff_isParent (h : t.WellFormed) {i j : Nat} : t.IsChild i j ↔ t.IsParent j i := by
  constructor
  · rintro ⟨p, hp, hj⟩
    exact (h.mem_children_iff hp).mp hj
  · rintro ⟨n, hn, hparent⟩
    obtain ⟨p, hp⟩ := exists_getElem? ((h.parent_lt hn hparent).trans (lt_size hn))
    exact ⟨p, hp, (h.mem_children_iff hp).mpr ⟨n, hn, hparent⟩⟩

theorem isChild_iff (h : t.WellFormed) {i : Nat} (hn : n ∈ t.nodes) :
    t.IsChild i n.index ↔ n.parent = some i := by
  rw [h.isChild_iff_isParent]
  constructor
  · rintro ⟨n', hn', hparent⟩
    rwa [Option.some.inj ((h.getElem?_index hn).symm.trans hn')]
  · exact fun hparent => ⟨n, h.getElem?_index hn, hparent⟩

/-- **The nodes above a node are its parent and the nodes above that.** -/
theorem isAncestor_iff_of_parent (h : t.WellFormed) (hn : n ∈ t.nodes) (hm : m ∈ t.nodes)
    (hparent : n.parent = some m.index) : t.IsAncestor a n ↔ t.Contains a m := by
  have hlink (i : Nat) : t.IsChild i n.index ↔ i = m.index := by
    rw [h.isChild_iff hn, hparent, Option.some_inj, eq_comm]
  constructor
  · rintro ⟨ha, hbelow⟩
    rcases Relation.TransGen.tail'_iff.mp hbelow with ⟨i, hfrom, hlast⟩
    obtain rfl := (hlink i).mp hlast
    rcases Relation.reflTransGen_iff_eq_or_transGen.mp hfrom with heq | hbelow
    · exact Or.inl (h.eq_of_index_eq ha hm heq.symm)
    · exact Or.inr ⟨ha, hbelow⟩
  · rintro (rfl | ⟨ha, hbelow⟩)
    · exact ⟨hm, .single ((hlink _).mpr rfl)⟩
    · exact ⟨ha, hbelow.tail ((hlink _).mpr rfl)⟩

theorem not_isAncestor_of_root (h : t.WellFormed) (hn : n ∈ t.nodes) (hparent : n.parent = none) :
    ¬t.IsAncestor a n := by
  rintro ⟨-, hbelow⟩
  obtain ⟨i, -, hlast⟩ := Relation.TransGen.tail'_iff.mp hbelow
  rw [h.isChild_iff hn, hparent] at hlast
  cases hlast

/-- **What is below a node is one of its children or below one.** -/
theorem isAncestor_iff_exists_child (h : t.WellFormed) (ha : a ∈ t.nodes) (hn : n ∈ t.nodes) :
    t.IsAncestor a n ↔ ∃ c ∈ t.nodes, c.parent = some a.index ∧ t.Contains c n := by
  constructor
  · rintro ⟨-, hbelow⟩
    obtain ⟨i, hfirst, hrest⟩ := Relation.TransGen.head'_iff.mp hbelow
    obtain ⟨c, hc, hparent⟩ := h.isChild_iff_isParent.mp hfirst
    have hmem : c ∈ t.nodes := Array.mem_of_getElem? hc
    obtain rfl : c.index = i := h.index i c hc
    refine ⟨c, hmem, hparent, ?_⟩
    rcases Relation.reflTransGen_iff_eq_or_transGen.mp hrest with heq | hbelow
    · exact Or.inl (h.eq_of_index_eq hmem hn heq.symm)
    · exact Or.inr ⟨hmem, hbelow⟩
  · rintro ⟨c, hc, hparent, rfl | ⟨-, hbelow⟩⟩
    · exact ⟨ha, .single ((h.isChild_iff hc).mpr hparent)⟩
    · exact ⟨ha, hbelow.head ((h.isChild_iff hc).mpr hparent)⟩

/-! ## The order of nodes -/

theorem index_lt_of_isAncestor (h : t.WellFormed) (ha : t.IsAncestor a n) :
    a.index < n.index := by
  obtain ⟨-, hbelow⟩ := ha
  generalize a.index = i at hbelow
  generalize n.index = j at hbelow
  have hstep : ∀ k l, t.IsChild k l → k < l := by
    rintro k l ⟨p, hp, hl⟩
    exact h.lt_of_mem_children hp hl
  induction hbelow with
  | single hchild => exact hstep _ _ hchild
  | tail _ hchild ih => exact ih.trans (hstep _ _ hchild)

theorem index_le_of_contains (h : t.WellFormed) (ha : t.Contains a n) : a.index ≤ n.index := by
  rcases ha with rfl | ha
  · exact Nat.le_refl _
  · exact Nat.le_of_lt (h.index_lt_of_isAncestor ha)

end WellFormed

theorem IsAncestor.trans {t : Tree} {a m n : Node} (ha : t.IsAncestor a m)
    (hm : t.IsAncestor m n) : t.IsAncestor a n :=
  ⟨ha.1, ha.2.trans hm.2⟩

theorem IsAncestor.trans_contains {t : Tree} {a m n : Node} (ha : t.IsAncestor a m)
    (hm : t.Contains m n) : t.IsAncestor a n := by
  rcases hm with rfl | hm
  · exact ha
  · exact ha.trans hm

theorem Contains.trans {t : Tree} {a m n : Node} (ha : t.Contains a m) (hm : t.Contains m n) :
    t.Contains a n := by
  rcases ha with rfl | ha
  · exact hm
  · exact Or.inr (ha.trans_contains hm)

namespace WellFormed

variable {t : Tree} {a b c d m n u : Node}

/-- **The nodes above a node form a chain.** -/
theorem contains_total (h : t.WellFormed) (hn : n ∈ t.nodes) (ha : t.Contains a n)
    (hb : t.Contains b n) : t.Contains a b ∨ t.Contains b a := by
  -- by the index: unless one of the two is `n`, both contain the parent of `n`
  induction hindex : n.index using Nat.strong_induction_on generalizing n with
  | _ i ih =>
      rcases ha with rfl | ha
      · exact Or.inr hb
      rcases hb with rfl | hb
      · exact Or.inl (Or.inr ha)
      cases hparent : n.parent with
      | none => exact absurd ha (h.not_isAncestor_of_root hn hparent)
      | some p =>
          have hlt : p < n.index := h.parent_lt (h.getElem?_index hn) hparent
          obtain ⟨m, hm⟩ := exists_getElem? (hlt.trans (h.index_lt hn))
          have hmem : m ∈ t.nodes := Array.mem_of_getElem? hm
          obtain rfl : m.index = p := h.index p m hm
          rw [h.isAncestor_iff_of_parent hn hmem hparent] at ha hb
          exact ih m.index (hindex ▸ hlt) hmem ha hb rfl

/-- The child of `u` through which `d` is reached contains everything on the way to `d`. -/
theorem contains_of_isOnWay (h : t.WellFormed) (hu : u ∈ t.nodes) (hc : c ∈ t.nodes)
    (hd : d ∈ t.nodes) (hparent : c.parent = some u.index) (hcd : t.Contains c d)
    (hm : t.IsOnWay u d m) : t.Contains c m := by
  obtain ⟨hum, hmd⟩ := hm
  rcases h.contains_total hd hcd hmd with hcm | hmc
  · exact hcm
  · rcases hmc with rfl | hmc
    · exact Or.inl rfl
    · -- above a child of `u` there is nothing that is below `u`
      have hmu := h.index_le_of_contains ((h.isAncestor_iff_of_parent hc hu hparent).mp hmc)
      have hlt := h.index_lt_of_isAncestor hum
      omega

/-- On the way down from `u` there is one child of `u`. -/
theorem eq_of_contains_of_parent (h : t.WellFormed) (hu : u ∈ t.nodes) (hm : m ∈ t.nodes)
    (hc : c.parent = some u.index) (hc' : c ∈ t.nodes) (hparent : m.parent = some u.index)
    (hcm : t.Contains c m) : c = m := by
  rcases hcm with rfl | hcm
  · rfl
  · have hcu := h.index_le_of_contains ((h.isAncestor_iff_of_parent hm hu hparent).mp hcm)
    have hlt := h.parent_lt (h.getElem?_index hc') hc
    omega

/-! ## The way up -/

/-- **The way up meets the nodes above.** -/
theorem mem_wayUp_iff (h : t.WellFormed) (hn : n ∈ t.nodes) {line : List Node}
    (hway : t.IsWayUp n line) : a ∈ line ↔ t.IsAncestor a n := by
  induction line generalizing n with
  | nil => simp [h.not_isAncestor_of_root hn hway]
  | cons m rest ih =>
      obtain ⟨hparent, hm, hrest⟩ := hway
      rw [List.mem_cons, ih hm hrest, h.isAncestor_iff_of_parent hn hm hparent]
      rfl

theorem isNearest_iff_of_parent (h : t.WellFormed) {p : Kind → Prop} (hn : n ∈ t.nodes)
    (hm : m ∈ t.nodes) (hparent : n.parent = some m.index) :
    t.IsNearest p n a ↔ p m.kind ∧ m = a ∨ ¬p m.kind ∧ t.IsNearest p m a := by
  have hup (b : Node) : t.IsAncestor b n ↔ t.Contains b m :=
    h.isAncestor_iff_of_parent hn hm hparent
  constructor
  · rintro ⟨hancestor, holds, hnearest⟩
    rw [hup] at hancestor
    by_cases hpm : p m.kind
    · refine Or.inl ⟨hpm, ?_⟩
      rcases hnearest m ((hup m).mpr (Or.inl rfl)) hpm with heq | hma
      · exact heq
      · have hlt := h.index_lt_of_isAncestor hma
        have hle := h.index_le_of_contains hancestor
        omega
    · refine Or.inr ⟨hpm, ?_, holds, fun b hb hpb => hnearest b ((hup b).mpr (Or.inr hb)) hpb⟩
      rcases hancestor with rfl | hancestor
      · exact absurd holds hpm
      · exact hancestor
  · rintro (⟨hpm, rfl⟩ | ⟨hpm, hancestor, holds, hnearest⟩)
    · exact ⟨(hup m).mpr (Or.inl rfl), hpm, fun b hb _ => (hup b).mp hb⟩
    · refine ⟨(hup a).mpr (Or.inr hancestor), holds, fun b hb hpb => ?_⟩
      rcases (hup b).mp hb with rfl | hb
      · exact absurd hpb hpm
      · exact hnearest b hb hpb

/-- **The first node on the way up that satisfies a condition is the nearest one.** -/
theorem find?_wayUp_iff (h : t.WellFormed) {p : Kind → Prop} [DecidablePred p] (hn : n ∈ t.nodes)
    {line : List Node} (hway : t.IsWayUp n line) :
    line.find? (fun m => decide (p m.kind)) = some a ↔ t.IsNearest p n a := by
  induction line generalizing n with
  | nil =>
      refine iff_of_false (by simp) fun hnearest => ?_
      exact h.not_isAncestor_of_root hn hway hnearest.isAncestor
  | cons m rest ih =>
      obtain ⟨hparent, hm, hrest⟩ := hway
      rw [h.isNearest_iff_of_parent hn hm hparent, ← ih hm hrest]
      by_cases hpm : p m.kind
      · simp [hpm]
      · simp [hpm]

/-- There is one nearest node. -/
theorem eq_of_isNearest (h : t.WellFormed) {p : Kind → Prop} (ha : t.IsNearest p n a)
    (hb : t.IsNearest p n b) : a = b := by
  have hab := hb.nearest a ha.isAncestor ha.holds
  have hba := ha.nearest b hb.isAncestor hb.holds
  refine h.eq_of_index_eq ha.isAncestor.1 hb.isAncestor.1 ?_
  exact Nat.le_antisymm (h.index_le_of_contains hab) (h.index_le_of_contains hba)

end WellFormed

end SeamLint.Code.Tree
