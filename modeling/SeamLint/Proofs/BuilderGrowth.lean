import SeamLint.Proofs.DecisionPoints
import SeamLint.Proofs.PlaceTags

set_option autoImplicit false

/-! # What growth leaves as it is

While a tree is being built, its nodes can be asked about already. Later calls put children behind
those that are there and replace spans, and they change nothing else (`growsTo_run`). What is asked
of an old node by way of other old nodes has the same answer later: what tags it has (`classify_eq`)
and which of the old decision points are its own (`isOwnDecision_iff_of_became`). So its complexity
changes by the number of new decision points among its own (`ncard_isOwnDecision`).
-/

namespace SeamLint.Code

/-! ## Growth -/

/-- The same facts at another span. -/
def Facts.withSpan (f : Facts) (span : Span) : Facts := { f with span }

/-- The second node is the first one later on: its span may be another, and there may be more
children behind those that it had. -/
structure Node.GrowsTo (n n' : Node) : Prop where
  facts : n'.toFacts = n.toFacts.withSpan n'.span
  index : n'.index = n.index
  parent : n'.parent = n.parent
  children : n.children <+: n'.children

/-- The second tree has the nodes of the first one in their places, and perhaps more. -/
def Tree.GrowsTo (t t' : Tree) : Prop :=
  ∀ (i : Nat) (n : Node), t.nodes[i]? = some n → ∃ n', t'.nodes[i]? = some n' ∧ n.GrowsTo n'

theorem Node.GrowsTo.refl (n : Node) : n.GrowsTo n := ⟨rfl, rfl, rfl, List.prefix_rfl⟩

theorem Node.GrowsTo.trans {n n' n'' : Node} (h : n.GrowsTo n') (h' : n'.GrowsTo n'') :
    n.GrowsTo n'' := by
  refine ⟨?_, h'.index.trans h.index, h'.parent.trans h.parent, h.children.trans h'.children⟩
  calc n''.toFacts
      = n'.toFacts.withSpan n''.span := h'.facts
    _ = (n.toFacts.withSpan n'.span).withSpan n''.span := by rw [h.facts]; rfl
    _ = n.toFacts.withSpan n''.span := rfl

theorem Node.GrowsTo.kind {n n' : Node} (h : n.GrowsTo n') : n'.kind = n.kind := by
  rw [h.facts]
  rfl

theorem Node.GrowsTo.name {n n' : Node} (h : n.GrowsTo n') : n'.name = n.name := by
  rw [h.facts]
  rfl

theorem Node.GrowsTo.modifiers {n n' : Node} (h : n.GrowsTo n') : n'.modifiers = n.modifiers := by
  rw [h.facts]
  rfl

theorem Tree.GrowsTo.refl (t : Tree) : t.GrowsTo t := fun _ n hn => ⟨n, hn, .refl n⟩

theorem Tree.GrowsTo.trans {t t' t'' : Tree} (h : t.GrowsTo t') (h' : t'.GrowsTo t'') :
    t.GrowsTo t'' := by
  intro i n hn
  obtain ⟨n', hn', hgrows⟩ := h i n hn
  obtain ⟨n'', hn'', hgrows'⟩ := h' i n' hn'
  exact ⟨n'', hn'', hgrows.trans hgrows'⟩

namespace Builder

variable {b after : Builder}

theorem growsTo_added {parent : Nat} {facts : Facts} (h : Added b after parent facts) :
    b.tree.GrowsTo after.tree := by
  intro i n hn
  refine ⟨_, by rw [h.old i (Tree.WellFormed.lt_size hn), hn]; rfl, ?_⟩
  split
  · exact ⟨rfl, rfl, rfl, List.prefix_append _ _⟩
  · exact .refl n

theorem growsTo_spanSet {place : Nat} {span : Span} (h : SpanSet b after place span) :
    b.tree.GrowsTo after.tree := by
  intro i n hn
  refine ⟨_, by rw [h.getElem?_tree i, hn]; rfl, ?_⟩
  split
  · exact ⟨rfl, rfl, rfl, List.prefix_rfl⟩
  · exact .refl n

/-- One call lets the tree grow, or leaves it as it is. -/
theorem growsTo_call (h : b.Sound) (c : Call) : b.tree.GrowsTo (b.call c).2.tree := by
  have houtcome := outcome_call h c
  generalize (b.call c).1 = reply, (b.call c).2 = after at houtcome
  cases houtcome with
  | added hplace hlt hadded => exact growsTo_added hadded
  | parentMissing hplace => exact .refl _
  | spanSet hplace hlt hset => exact growsTo_spanSet hset
  | nodeMissing hplace => exact .refl _
  | built => exact .refl _

/-- **Whatever calls are made, the tree grows.** -/
theorem growsTo_run (h : b.Sound) (calls : List Call) : b.tree.GrowsTo (b.run calls).2.tree := by
  induction calls generalizing b with
  | nil => exact .refl _
  | cons c calls ih => exact (growsTo_call h c).trans (ih (sound_call h c))

end Builder

/-! ## Old nodes -/

namespace Tree

/-- The node `n` of the first tree is `n'` in the second one. -/
structure Became (t t' : Tree) (n n' : Node) : Prop where
  before : n ∈ t.nodes
  after : n' ∈ t'.nodes
  grows : n.GrowsTo n'

theorem IsOnWay.mem_nodes {t : Tree} {u d m : Node} (h : t.IsOnWay u d m) (hd : d ∈ t.nodes) :
    m ∈ t.nodes := by
  rcases h.2 with rfl | hmd
  · exact hd
  · exact hmd.1

theorem GrowsTo.exists_became {t t' : Tree} (hgrows : t.GrowsTo t') {i : Nat} {n : Node}
    (hn : t.nodes[i]? = some n) : ∃ n', t'.nodes[i]? = some n' ∧ t.Became t' n n' := by
  obtain ⟨n', hn', hgrown⟩ := hgrows i n hn
  exact ⟨n', hn', Array.mem_of_getElem? hn, Array.mem_of_getElem? hn', hgrown⟩

section Growth

variable {t t' : Tree} {a a' d d' m m' n n' u u' : Node} (h : t.WellFormed) (h' : t'.WellFormed)
  (hgrows : t.GrowsTo t')

include h hgrows

theorem GrowsTo.exists_after (hn : n ∈ t.nodes) : ∃ n', t.Became t' n n' := by
  obtain ⟨n', -, hbecame⟩ := hgrows.exists_became (h.getElem?_index hn)
  exact ⟨n', hbecame⟩

include h'

theorem GrowsTo.became (hn : n ∈ t.nodes) (hn' : n' ∈ t'.nodes) (hindex : n'.index = n.index) :
    t.Became t' n n' := by
  obtain ⟨m, hm⟩ := hgrows.exists_after h hn
  rwa [h'.eq_of_index_eq hn' hm.after (hindex.trans hm.grows.index.symm)]

/-- The nodes whose indices the first tree has are the old ones. -/
theorem GrowsTo.exists_before (hn' : n' ∈ t'.nodes) (hlt : n'.index < t.size) :
    ∃ n, t.Became t' n n' := by
  obtain ⟨n, hn⟩ := WellFormed.exists_getElem? hlt
  exact ⟨n, hgrows.became h h' (Array.mem_of_getElem? hn) hn' (h.index _ n hn).symm⟩

/-- A link that led somewhere leads to the same node later. -/
theorem GrowsTo.exists_linked_iff {link : Option Nat} (hlink : ∀ i ∈ link, i < t.size)
    {P P' : Node → Prop}
    (hP : ∀ m m', t.Became t' m m' → link = some m.index → (P' m' ↔ P m)) :
    (∃ m' ∈ t'.nodes, link = some m'.index ∧ P' m') ↔
      ∃ m ∈ t.nodes, link = some m.index ∧ P m := by
  constructor
  · rintro ⟨m', hm', hindex, hholds⟩
    obtain ⟨m, hm⟩ := hgrows.exists_before h h' hm' (hlink _ hindex)
    rw [hm.grows.index] at hindex
    exact ⟨m, hm.before, hindex, (hP m m' hm hindex).mp hholds⟩
  · rintro ⟨m, hm, hindex, hholds⟩
    obtain ⟨m', hm'⟩ := hgrows.exists_after h hm
    exact ⟨m', hm'.after, by rw [hindex, hm'.grows.index], (hP m m' hm' hindex).mpr hholds⟩

/-- The way up from an old node leads through the same nodes as before. -/
theorem GrowsTo.forall₂_wayUp (hn : t.Became t' n n') {line line' : List Node}
    (hway : t.IsWayUp n line) (hway' : t'.IsWayUp n' line') :
    List.Forall₂ (t.Became t') line line' := by
  induction line generalizing n n' line' with
  | nil =>
      cases line' with
      | nil => exact .nil
      | cons m' rest' =>
          have hparent := hn.grows.parent
          rw [hway, hway'.1] at hparent
          cases hparent
  | cons m rest ih =>
      obtain ⟨hparent, hm, hrest⟩ := hway
      cases line' with
      | nil =>
          have hnone : n'.parent = none := hway'
          rw [hn.grows.parent, hparent] at hnone
          cases hnone
      | cons m' rest' =>
          obtain ⟨hparent', hm', hrest'⟩ := hway'
          rw [hn.grows.parent, hparent] at hparent'
          have hfirst := hgrows.became h h' hm hm' (Option.some.inj hparent').symm
          exact .cons hfirst (ih hfirst hrest hrest')

/-! ## Places among old nodes -/

theorem GrowsTo.isChild_iff {i j : Nat} (hj : j < t.size) : t'.IsChild i j ↔ t.IsChild i j := by
  obtain ⟨n, hn⟩ := WellFormed.exists_getElem? hj
  have hmem : n ∈ t.nodes := Array.mem_of_getElem? hn
  obtain rfl : n.index = j := h.index j n hn
  obtain ⟨n', hn'⟩ := hgrows.exists_after h hmem
  rw [h.isChild_iff hmem, ← hn'.grows.index, h'.isChild_iff hn'.after, hn'.grows.parent]

theorem GrowsTo.isBelow_iff {i j : Nat} (hj : j < t.size) : t'.IsBelow i j ↔ t.IsBelow i j := by
  have hlt {k l : Nat} (hchild : t.IsChild k l) : k < l := by
    obtain ⟨n, hn, hl⟩ := hchild
    exact h.lt_of_mem_children hn hl
  constructor
  · intro hbelow
    induction hbelow with
    | single hchild => exact .single ((hgrows.isChild_iff h h' hj).mp hchild)
    | tail _ hchild ih =>
        have hchild := (hgrows.isChild_iff h h' hj).mp hchild
        exact .tail (ih ((hlt hchild).trans hj)) hchild
  · intro hbelow
    induction hbelow with
    | single hchild => exact .single ((hgrows.isChild_iff h h' hj).mpr hchild)
    | tail _ hchild ih =>
        exact .tail (ih ((hlt hchild).trans hj)) ((hgrows.isChild_iff h h' hj).mpr hchild)

theorem GrowsTo.isAncestor_iff (ha : t.Became t' a a') (hn : t.Became t' n n') :
    t'.IsAncestor a' n' ↔ t.IsAncestor a n := by
  unfold IsAncestor
  rw [ha.grows.index, hn.grows.index, hgrows.isBelow_iff h h' (h.index_lt hn.before)]
  exact and_congr_left' (iff_of_true ha.after ha.before)

theorem GrowsTo.contains_iff (ha : t.Became t' a a') (hn : t.Became t' n n') :
    t'.Contains a' n' ↔ t.Contains a n := by
  refine or_congr ⟨?_, ?_⟩ (hgrows.isAncestor_iff h h' ha hn)
  · rintro rfl
    exact h.eq_of_index_eq ha.before hn.before (ha.grows.index.symm.trans hn.grows.index)
  · rintro rfl
    exact h'.eq_of_index_eq ha.after hn.after (ha.grows.index.trans hn.grows.index.symm)

theorem GrowsTo.isOnWay_iff (hu : t.Became t' u u') (hd : t.Became t' d d')
    (hm : t.Became t' m m') : t'.IsOnWay u' d' m' ↔ t.IsOnWay u d m :=
  and_congr (hgrows.isAncestor_iff h h' hu hm) (hgrows.contains_iff h h' hm hd)

/-- **The way to an old node has not changed**: what is on it later was there and was on it
before, and the other way round. -/
theorem GrowsTo.forall_isOnWay_iff (hu : t.Became t' u u') (hd : t.Became t' d d')
    {P P' : Node → Prop} (hP : ∀ m m', t.Became t' m m' → (P' m' ↔ P m)) :
    (∀ m', t'.IsOnWay u' d' m' → P' m') ↔ ∀ m, t.IsOnWay u d m → P m := by
  constructor
  · intro hall m hm
    obtain ⟨m', hm'⟩ := hgrows.exists_after h (hm.mem_nodes hd.before)
    exact (hP m m' hm').mp (hall m' ((hgrows.isOnWay_iff h h' hu hd hm').mpr hm))
  · intro hall m' hm'
    have hle := h'.index_le_of_contains hm'.2
    rw [hd.grows.index] at hle
    obtain ⟨m, hm⟩ := hgrows.exists_before h h' (hm'.mem_nodes hd.after)
      (hle.trans_lt (h.index_lt hd.before))
    exact (hP m m' hm).mpr (hall m ((hgrows.isOnWay_iff h h' hu hd hm).mp hm'))

end Growth

end Tree

end SeamLint.Code

/-! ## Tags -/

namespace SeamLint.Surroundings

open SeamLint.Code

section Growth

variable {t t' : Tree} {n n' : Node} (tables : Tables) (h : t.WellFormed) (h' : t'.WellFormed)
  (hgrows : t.GrowsTo t')

include h h' hgrows

/-- An old function is registered if and only if it was: the call around it had its argument as a
child already, so that another callee cannot take the first place. -/
theorem isRegistered_iff (hn : t.Became t' n n') :
    IsRegistered tables t' n' ↔ IsRegistered tables t n := by
  have hparents {m : Node} (hm : m ∈ t.nodes) : ∀ p ∈ m.parent, p < t.size := fun p hp =>
    (h.parent_lt (h.getElem?_index hm) hp).trans (h.index_lt hm)
  unfold IsRegistered
  rw [hn.grows.parent]
  refine hgrows.exists_linked_iff h h' (hparents hn.before) fun argument argument' hargument _ => ?_
  rw [hargument.grows.kind, hargument.grows.parent]
  refine and_congr_right fun _ => hgrows.exists_linked_iff h h' (hparents hargument.before)
    fun invocation invocation' hinvocation hparent => ?_
  have hindex := h.getElem?_index hinvocation.before
  have hchild : argument.index ∈ invocation.children :=
    (h.mem_children_iff hindex).mpr ⟨argument, h.getElem?_index hargument.before, hparent⟩
  have hfirst : invocation'.children.head? = invocation.children.head? := by
    obtain ⟨more, hmore⟩ := hinvocation.grows.children
    rw [← hmore, List.head?_append_of_ne_nil _ (List.ne_nil_of_mem hchild)]
  have hcallees : ∀ i ∈ invocation.children.head?, i < t.size := fun i hi => by
    obtain ⟨m, hm, -⟩ := (h.mem_children_iff hindex).mp (List.mem_of_mem_head? hi)
    exact Tree.WellFormed.lt_size hm
  rw [hinvocation.grows.kind, hfirst]
  refine and_congr_right fun _ => hgrows.exists_linked_iff h h' hcallees
    fun callee callee' hcallee _ => ?_
  rw [hcallee.grows.kind, hcallee.grows.name]

theorem isRegistrationArgument_eq (hn : t.Became t' n n') :
    isRegistrationArgument tables t' n' = isRegistrationArgument tables t n := by
  obtain ⟨registered, hregistered, hiff⟩ := gives_isRegistrationArgument h tables hn.before
  obtain ⟨registered', hregistered', hiff'⟩ := gives_isRegistrationArgument h' tables hn.after
  rw [isRegistered_iff tables h h' hgrows hn, ← hiff] at hiff'
  rw [hregistered, hregistered', Bool.eq_iff_iff.mpr hiff']

theorem tagsOf_eq (inMember : Bool) (hn : t.Became t' n n') :
    tagsOf tables t' inMember n' = tagsOf tables t inMember n := by
  unfold tagsOf Tables.fieldTags Facts.hasModifier
  rw [hn.grows.kind, hn.grows.name, hn.grows.modifiers,
    isRegistrationArgument_eq tables h h' hgrows hn]

theorem collectTags_eq (inMember : Bool) {nodes nodes' : List Node}
    (hnodes : List.Forall₂ (t.Became t') nodes nodes') :
    collectTags tables t' inMember nodes' = collectTags tables t inMember nodes := by
  induction hnodes generalizing inMember with
  | nil => rfl
  | cons hfirst hrest ih =>
      rw [collectTags, collectTags, tagsOf_eq tables h h' hgrows inMember hfirst,
        hfirst.grows.kind, ih]

/-- **Old nodes keep their tags.** -/
theorem classify_eq (hn : t.Became t' n n') : classify tables t' n' = classify tables t n := by
  obtain ⟨line, hline, hway⟩ := h.gives_ancestors hn.before
  obtain ⟨line', hline', hway'⟩ := h'.gives_ancestors hn.after
  unfold classify
  rw [hline, hline']
  exact collectTags_eq tables h h' hgrows false (hgrows.forall₂_wayUp h h' hn hway hway')

end Growth

end SeamLint.Surroundings

/-! ## Scores -/

namespace SeamLint.Measure

open SeamLint.Code

/-- What stands at `d` is in the own code of `u`: it is below `u`, there is no nested function on
the way from `u` to it, itself included, and the way does not begin at a parameter. -/
structure IsOwnPlace (t : Tree) (u d : Node) : Prop where
  isBelow : t.IsAncestor u d
  notNested : ∀ m, t.IsOnWay u d m → ¬IsNestedFunction m.kind
  notParameter : ¬IsThroughParameter t u d

theorem isOwnDecision_iff_isOwnPlace {t : Tree} {u d : Node} :
    IsOwnDecision t u d ↔ d ∈ t.nodes ∧ IsDecision d.toFacts ∧ IsOwnPlace t u d := by
  constructor
  · rintro ⟨hd, hbelow, hdecision, hnested, hparameter⟩
    exact ⟨hd, hdecision, hbelow, hnested, hparameter⟩
  · rintro ⟨hd, hdecision, hbelow, hnested, hparameter⟩
    exact ⟨hd, hbelow, hdecision, hnested, hparameter⟩

theorem not_isThroughParameter_iff {t : Tree} {u d : Node} : ¬IsThroughParameter t u d ↔
    ∀ c, t.IsOnWay u d c → ¬(c.parent = some u.index ∧ c.kind = .parameter) := by
  simp only [IsThroughParameter, not_exists, not_and]

/-- Decision points are told by their facts, and spans do not matter. -/
theorem isDecision_iff_of_growsTo {d d' : Node} (h : d.GrowsTo d') :
    IsDecision d'.toFacts ↔ IsDecision d.toFacts := by
  rw [h.facts]
  rfl

section Growth

variable {t t' : Tree} {u u' d d' : Node} (h : t.WellFormed) (h' : t'.WellFormed)
  (hgrows : t.GrowsTo t')

include h h' hgrows

theorem isOwnPlace_iff (hu : t.Became t' u u') (hd : t.Became t' d d') :
    IsOwnPlace t' u' d' ↔ IsOwnPlace t u d := by
  have hnested : (∀ m', t'.IsOnWay u' d' m' → ¬IsNestedFunction m'.kind) ↔
      ∀ m, t.IsOnWay u d m → ¬IsNestedFunction m.kind :=
    hgrows.forall_isOnWay_iff h h' hu hd fun m m' hm => by rw [hm.grows.kind]
  have hparameter : ¬IsThroughParameter t' u' d' ↔ ¬IsThroughParameter t u d := by
    rw [not_isThroughParameter_iff, not_isThroughParameter_iff]
    refine hgrows.forall_isOnWay_iff h h' hu hd fun m m' hm => ?_
    rw [hm.grows.parent, hm.grows.kind, hu.grows.index]
  constructor
  · rintro ⟨hbelow, hway, hway'⟩
    exact ⟨(hgrows.isAncestor_iff h h' hu hd).mp hbelow, hnested.mp hway, hparameter.mp hway'⟩
  · rintro ⟨hbelow, hway, hway'⟩
    exact ⟨(hgrows.isAncestor_iff h h' hu hd).mpr hbelow, hnested.mpr hway, hparameter.mpr hway'⟩

/-- Old decision points count for the units that they counted for. -/
theorem isOwnDecision_iff_of_became (hu : t.Became t' u u') (hd : t.Became t' d d') :
    IsOwnDecision t' u' d' ↔ IsOwnDecision t u d := by
  rw [isOwnDecision_iff_isOwnPlace, isOwnDecision_iff_isOwnPlace,
    isOwnPlace_iff h h' hgrows hu hd, isDecision_iff_of_growsTo hd.grows]
  exact and_congr_left' (iff_of_true hd.after hd.before)

/-- The old decision points of a unit stand where they stood. -/
theorem image_index_oldDecisions (hu : t.Became t' u u') :
    Node.index '' {d | IsOwnDecision t' u' d ∧ d.index < t.size} =
      Node.index '' {d | IsOwnDecision t u d} := by
  ext i
  constructor
  · rintro ⟨d', ⟨hown, hlt⟩, rfl⟩
    obtain ⟨d, hd⟩ := hgrows.exists_before h h' hown.mem_nodes hlt
    exact ⟨d, (isOwnDecision_iff_of_became h h' hgrows hu hd).mp hown, hd.grows.index.symm⟩
  · rintro ⟨d, hown, rfl⟩
    obtain ⟨d', hd⟩ := hgrows.exists_after h hown.mem_nodes
    refine ⟨d', ⟨(isOwnDecision_iff_of_became h h' hgrows hu hd).mpr hown, ?_⟩, hd.grows.index⟩
    rw [hd.grows.index]
    exact h.index_lt hown.mem_nodes

/-- **A unit has the decision points that it had, and the new ones among its own.** -/
theorem ncard_isOwnDecision (hu : t.Became t' u u') :
    {d | IsOwnDecision t' u' d}.ncard = {d | IsOwnDecision t u d}.ncard +
      {d | IsOwnDecision t' u' d ∧ t.size ≤ d.index}.ncard := by
  -- nodes are counted by their indices, because an old node is another node later
  have hcount {s : Tree} (hs : s.WellFormed) {counted : Set Node}
      (hmem : ∀ d ∈ counted, d ∈ s.nodes) : (Node.index '' counted).ncard = counted.ncard :=
    Set.InjOn.ncard_image fun a ha b hb => hs.eq_of_index_eq (hmem a ha) (hmem b hb)
  have hold : {d | IsOwnDecision t' u' d ∧ d.index < t.size}.ncard =
      {d | IsOwnDecision t u d}.ncard := by
    rw [← hcount h' fun d hd => hd.1.mem_nodes, ← hcount h fun d hd => hd.mem_nodes,
      image_index_oldDecisions h h' hgrows hu]
  have hparts : {d | IsOwnDecision t' u' d} = {d | IsOwnDecision t' u' d ∧ d.index < t.size} ∪
      {d | IsOwnDecision t' u' d ∧ t.size ≤ d.index} := by
    ext d
    have htotal := Nat.lt_or_ge d.index t.size
    simp only [Set.mem_ofPred_eq, Set.mem_union]
    tauto
  have hdisjoint : Disjoint {d | IsOwnDecision t' u' d ∧ d.index < t.size}
      {d | IsOwnDecision t' u' d ∧ t.size ≤ d.index} :=
    Set.disjoint_left.mpr fun d hd hd' => Nat.not_lt.mpr hd'.2 hd.2
  rw [hparts, Set.ncard_union_eq hdisjoint (finite_of_forall_mem fun d hd => hd.1.mem_nodes)
    (finite_of_forall_mem fun d hd => hd.1.mem_nodes), hold]

/-- The complexity of an old unit is what it was and the number of new decision points of its
own. -/
theorem gives_complexityAt_grown (hu : t.Became t' u u') (hunit : IsCodeUnit u.kind) :
    Gives (fun score => complexityAt t' u' =
      .ok (score + {d | IsOwnDecision t' u' d ∧ t.size ≤ d.index}.ncard)) (complexityAt t u) := by
  have hunit' : IsCodeUnit u'.kind := by rwa [hu.grows.kind]
  refine (gives_complexityAt h hu.before ((isCodeUnit_iff _).mpr hunit)).mono ?_
  rintro score rfl
  obtain ⟨score', hscore', rfl⟩ := gives_complexityAt h' hu.after ((isCodeUnit_iff _).mpr hunit')
  rw [hscore', ncard_isOwnDecision h h' hgrows hu, Nat.add_assoc]

end Growth

/-- If one node is new, the new decision points of a unit are that node, if it is one of them. -/
theorem ncard_newDecisions {t t' : Tree} {new : Node} (u' : Node) (h' : t'.WellFormed)
    (hsize : t'.size = t.size + 1) (hnew : t'.nodes[t.size]? = some new) :
    (IsOwnPlace t' u' new →
      {d | IsOwnDecision t' u' d ∧ t.size ≤ d.index}.ncard = decisionWeight new.toFacts) ∧
    (¬IsOwnPlace t' u' new → {d | IsOwnDecision t' u' d ∧ t.size ≤ d.index}.ncard = 0) := by
  have hmem : new ∈ t'.nodes := Array.mem_of_getElem? hnew
  have hindex : new.index = t.size := h'.index _ new hnew
  have hlast : {d | IsOwnDecision t' u' d ∧ t.size ≤ d.index} =
      {d | d = new ∧ IsOwnPlace t' u' new ∧ IsDecision new.toFacts} := by
    ext d
    rw [Set.mem_ofPred_eq, Set.mem_ofPred_eq, isOwnDecision_iff_isOwnPlace]
    constructor
    · rintro ⟨⟨hd, hdecision, hplace⟩, hle⟩
      have hlt := h'.index_lt hd
      obtain rfl : d = new := h'.eq_of_index_eq hd hmem (by omega)
      exact ⟨rfl, hplace, hdecision⟩
    · rintro ⟨rfl, hplace, hdecision⟩
      exact ⟨⟨hmem, hdecision, hplace⟩, Nat.le_of_eq hindex.symm⟩
  rw [hlast]
  constructor
  · intro hplace
    classical
    rw [decisionWeight_eq]
    by_cases hdecision : IsDecision new.toFacts
    · simp [hplace, hdecision]
    · simp [hdecision]
  · intro hplace
    simp [hplace]

end SeamLint.Measure

namespace SeamLint.Code.Builder

open SeamLint.Measure SeamLint.Surroundings

/-! ## Builders -/

theorem added_of_call {b grown : Builder} (h : b.Sound) {parent : Option Int} {facts : Facts}
    {index : Nat} (hcall : b.call (.add parent facts) = (.added index, grown)) :
    index = b.tree.size ∧ ∃ place < b.size, Added b grown place facts := by
  have houtcome := outcome_call h (.add parent facts)
  rw [hcall] at houtcome
  cases houtcome with
  | added hplace hlt hadded => exact ⟨(size_tree b).symm, _, hlt, hadded⟩

/-- **Growth changes no tags, and scores by what is added.** Whatever calls are made to a builder,
every node that it has is there afterwards and has the tags that it had, and if it is a code unit
its complexity is not lower. If one node is added, the complexity of a unit that was there
is greater by the weight of the new node if that is in the own code of the unit, with no nested
function on the way to it and not behind a parameter, and otherwise it is what it was. -/
theorem growth_keeps_tags_and_scores (b : Builder) (hb : b.IsReachable) :
    ∃ t, b.Builds t ∧
      (∀ further : List Call, ∃ t', (b.run further).2.Builds t' ∧
        ∀ (i : Nat) (n : Node), t.nodes[i]? = some n →
          ∃ n', t'.nodes[i]? = some n' ∧
            (∀ tables, ∃ tags, classify tables t n = .ok tags ∧
              classify tables t' n' = .ok tags) ∧
            (IsCodeUnit n.kind → ∃ score score', complexityAt t n = .ok score ∧
              complexityAt t' n' = .ok score' ∧ score ≤ score')) ∧
      ∀ (parent : Option Int) (facts : Facts) (index : Nat) (grown : Builder),
        b.call (.add parent facts) = (.added index, grown) →
        ∃ t' new, grown.Builds t' ∧ t.nodes[index]? = none ∧ t'.nodes[index]? = some new ∧
          new.toFacts = facts ∧
          ∀ (i : Nat) (u : Node), t.nodes[i]? = some u → IsCodeUnit u.kind →
            ∃ u' score, t'.nodes[i]? = some u' ∧ complexityAt t u = .ok score ∧
              (IsOwnPlace t' u' new →
                complexityAt t' u' = .ok (score + decisionWeight facts)) ∧
              (¬IsOwnPlace t' u' new → complexityAt t' u' = .ok score) := by
  have hsound := hb.sound
  have hwf := hsound.wellFormed
  refine ⟨b.tree, hsound.builds, fun further => ?_, ?_⟩
  · have hsound' := (sound_run hsound further).1
    have hgrows := growsTo_run hsound further
    refine ⟨_, hsound'.builds, fun i n hn => ?_⟩
    obtain ⟨n', hn', hbecame⟩ := hgrows.exists_became hn
    refine ⟨n', hn', fun tables => ?_, fun hunit => ?_⟩
    · obtain ⟨tags, htags, -⟩ := gives_classify hwf tables hbecame.before
      exact ⟨tags, htags,
        (classify_eq tables hwf hsound'.wellFormed hgrows hbecame).trans htags⟩
    · obtain ⟨score, hscore, hscore'⟩ :=
        gives_complexityAt_grown hwf hsound'.wellFormed hgrows hbecame hunit
      exact ⟨score, _, hscore, hscore', Nat.le_add_right _ _⟩
  · intro parent facts index grown hcall
    obtain ⟨rfl, place, hlt, hadded⟩ := added_of_call hsound hcall
    have hsound' : grown.Sound := ⟨hadded.sizes, wellFormed_added hwf hlt hadded⟩
    have hgrows := growsTo_added hadded
    refine ⟨_, _, hsound'.builds, Array.getElem?_eq_none (Nat.le_refl _), hadded.new, rfl,
      fun i u hu hunit => ?_⟩
    obtain ⟨u', hu', hbecame⟩ := hgrows.exists_became hu
    obtain ⟨score, hscore, hscore'⟩ :=
      gives_complexityAt_grown hwf hsound'.wellFormed hgrows hbecame hunit
    obtain ⟨hown, hother⟩ := ncard_newDecisions u' hsound'.wellFormed hadded.size hadded.new
    refine ⟨u', score, hu', hscore, fun hplace => ?_, fun hplace => ?_⟩
    · exact hscore'.trans (by rw [hown hplace])
    · exact hscore'.trans (by rw [hother hplace, Nat.add_zero])

/-- A method with a parameter and a call to which a lambda is handed for registration. -/
def registration : Builder :=
  ((start "src/App.cs").run
    [.add none { kind := .method }, .add (some 1) { kind := .parameter },
     .add (some 1) { kind := .invocation },
     .add (some 3) { kind := .memberAccess, name := some "AddScoped" },
     .add (some 3) { kind := .argument }, .add (some 5) { kind := .lambda },
     .add (some 6) { kind := .objectCreation }]).2

/-- The same with a conditional below a node. -/
def registrationWith (place : Int) : Builder :=
  (registration.call (.add (some place) { kind := .conditional })).2

set_option maxRecDepth 4000 in
/-- A second member access in the call does not take the tag from what the lambda creates. A
conditional counts for the method if it is added to the call, and not if it is added to the
lambda. -/
theorem growth_keeps_tags_and_scores_registration :
    let further : List Call :=
      [.add (some 3) { kind := .memberAccess, name := some "Wrap" }, .setSpan 6 ⟨4, 1, 9, 2⟩]
    registration.IsReachable ∧
    (∃ t n, (registration.run further).2.Builds t ∧ t.nodes[7]? = some n ∧
      classify {} t n = .ok [.factoryDelegate]) ∧
    (∃ t u new, (registrationWith 3).Builds t ∧ t.nodes[1]? = some u ∧ t.nodes[8]? = some new ∧
      IsOwnPlace t u new ∧ complexityAt t u = .ok 2) ∧
    ∃ t u new, (registrationWith 6).Builds t ∧ t.nodes[1]? = some u ∧ t.nodes[8]? = some new ∧
      ¬IsOwnPlace t u new ∧ complexityAt t u = .ok 1 := by
  intro further
  have hreach : registration.IsReachable := ⟨_, _, rfl⟩
  obtain ⟨t, hbuilds, htags, hscores⟩ := growth_keeps_tags_and_scores registration hreach
  obtain rfl := hreach.sound.builds.unique hbuilds
  obtain ⟨u, hu, hkind, hscore⟩ : ∃ u, registration.tree.nodes[1]? = some u ∧
      u.kind = .method ∧ complexityAt registration.tree u = .ok 1 :=
    ⟨_, rfl, rfl, complexityAt_of_complexityTo 9 rfl rfl⟩
  refine ⟨hreach, ?_, ?_, ?_⟩
  · obtain ⟨n, hn, hclassify⟩ : ∃ n, registration.tree.nodes[7]? = some n ∧
        classify {} registration.tree n = .ok [.factoryDelegate] := ⟨_, rfl, rfl⟩
    obtain ⟨t', hbuilds', hnodes⟩ := htags further
    obtain ⟨n', hn', htags, -⟩ := hnodes 7 n hn
    obtain ⟨tags, hbefore, hafter⟩ := htags {}
    exact ⟨t', n', hbuilds', hn', by rw [hafter, ← hbefore, hclassify]⟩
  · obtain ⟨t', new, hbuilds', -, hnew, -, hunits⟩ :=
      hscores (some 3) { kind := .conditional } 8 (registrationWith 3) rfl
    obtain ⟨u', score, hu', hbefore, -, hother⟩ := hunits 1 u hu (Or.inl hkind)
    obtain rfl : (registrationWith 3).tree = t' :=
      (sound_call hreach.sound _).builds.unique hbuilds'
    have hafter : complexityAt (registrationWith 3).tree u' = .ok 2 := by
      cases hu'
      exact complexityAt_of_complexityTo 9 rfl rfl
    refine ⟨_, u', new, hbuilds', hu', hnew, ?_, hafter⟩
    -- elsewhere the conditional would leave the complexity as it was
    by_contra hplace
    obtain rfl : score = 1 := Except.ok.inj (hbefore.symm.trans hscore)
    exact nomatch Except.ok.inj (hafter.symm.trans (hother hplace))
  · obtain ⟨t', new, hbuilds', -, hnew, -, hunits⟩ :=
      hscores (some 6) { kind := .conditional } 8 (registrationWith 6) rfl
    obtain ⟨u', score, hu', hbefore, hown, -⟩ := hunits 1 u hu (Or.inl hkind)
    obtain rfl : (registrationWith 6).tree = t' :=
      (sound_call hreach.sound _).builds.unique hbuilds'
    have hafter : complexityAt (registrationWith 6).tree u' = .ok 1 := by
      cases hu'
      exact complexityAt_of_complexityTo 9 rfl rfl
    refine ⟨_, u', new, hbuilds', hu', hnew, fun hplace => ?_, hafter⟩
    obtain rfl : score = 1 := Except.ok.inj (hbefore.symm.trans hscore)
    exact nomatch Except.ok.inj (hafter.symm.trans (hown hplace))

end SeamLint.Code.Builder
