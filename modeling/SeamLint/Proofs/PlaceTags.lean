import SeamLint.Proofs.Ancestry
import SeamLint.Surroundings.Classify

set_option autoImplicit false

/-! # What the tags of a place mean

Classification is one walk from a node to the root that remembers whether it has met a member.
What it collects is told here without the walk (`IsTagged`): a tag is given by a node above that
bears its mark, and the tag of an initializer only by the nearest member. One node gives the tags
whose marks it bears (`gives_tagsOf`), a walk those of the nodes that it meets
(`gives_collectTags`), and the walk from a node meets the nodes above it (`gives_classify`).
-/

namespace SeamLint.Text

/-! ## Parts of names -/

theorem startsWith_iff {part s : String} :
    startsWith part s = true ↔ part.toList <+: s.toList :=
  List.isPrefixOf_iff_prefix

theorem endsWith_iff {part s : String} :
    endsWith part s = true ↔ part.toList <:+ s.toList :=
  List.isSuffixOf_iff_suffix

theorem occursIn_iff {part s : List Char} : occursIn part s = true ↔ part <:+: s := by
  induction s with
  | nil => simp [occursIn, List.isEmpty_iff]
  | cons c s ih =>
      rw [occursIn, Bool.or_eq_true, ih, List.isPrefixOf_iff_prefix, List.infix_cons_iff]

theorem contains_iff {part s : String} :
    contains part s = true ↔ part.toList <:+: s.toList :=
  occursIn_iff

end SeamLint.Text

namespace SeamLint.Surroundings

open SeamLint.Code SeamLint.Scan

/-! ## Marks -/

/-- A class or a record whose name satisfies `p`; without a name it has the empty one. -/
def IsTypeNamed (p : String → Prop) (a : Node) : Prop :=
  (a.kind = .classDeclaration ∨ a.kind = .recordDeclaration) ∧ p (a.name.getD "")

/-- A method whose name satisfies `p`; without a name it has the empty one. -/
def IsMethodNamed (p : String → Prop) (a : Node) : Prop := a.kind = .method ∧ p (a.name.getD "")

/-- Node `f` is the child of an argument that is the child of a call, and what is called is a
member with a name that begins like a registration or is one. -/
def IsRegistered (tables : Tables) (t : Tree) (f : Node) : Prop :=
  ∃ argument ∈ t.nodes, f.parent = some argument.index ∧ argument.kind = .argument ∧
    ∃ invocation ∈ t.nodes, argument.parent = some invocation.index ∧
      invocation.kind = .invocation ∧
      ∃ callee ∈ t.nodes, invocation.children.head? = some callee.index ∧
        callee.kind = .memberAccess ∧
        ∃ name, callee.name = some name ∧
          ((∃ start ∈ tables.registrationStarts, start.toList <+: name.toList) ∨
            name ∈ tables.registrationMethods)

/-- What a node has to be like to give a tag to the nodes below it. -/
def Marks (tables : Tables) (t : Tree) (a : Node) : Tag → Prop
  | .compositionRoot =>
      IsTypeNamed (· ∈ tables.compositionRootTypes) a ∨
      IsMethodNamed (· ∈ tables.compositionRootMethods) a
  | .dataAccessClass =>
      IsTypeNamed (fun name => (∃ part ∈ tables.dataAccessEnds, part.toList <:+ name.toList) ∨
        ∃ part ∈ tables.dataAccessParts, part.toList <:+: name.toList) a
  | .httpClientFactoryClass =>
      IsTypeNamed (fun name => ∃ part ∈ tables.httpFactoryParts, part.toList <:+: name.toList) a ∨
      IsMethodNamed (· ∈ tables.httpFactoryMethods) a
  | .testClass =>
      IsTypeNamed (fun name => (∃ part ∈ tables.testStarts, part.toList <+: name.toList) ∨
        ∃ part ∈ tables.testEnds, part.toList <:+ name.toList) a
  | .factoryDelegate => (a.kind = .lambda ∨ a.kind = .anonymousMethod) ∧ IsRegistered tables t a
  | .staticReadonlyFieldInit =>
      a.kind = .field ∧ tables.sharedModifier ∈ a.modifiers ∧
        tables.assignOnceModifier ∈ a.modifiers

/-- The kinds of members, which part what they hold from the fields outside. -/
def IsBoundary (kind : Kind) : Prop :=
  kind = .field ∨ kind = .method ∨ kind = .constructor ∨ kind = .property

instance : DecidablePred IsBoundary := fun _ => inferInstanceAs (Decidable (_ ∨ _))

/-- The place of `n` has the tag: some node above bears the mark, and for the tag of an initializer
the nearest member does. -/
def IsTagged (tables : Tables) (t : Tree) (n : Node) : Tag → Prop
  | .staticReadonlyFieldInit =>
      ∃ a, t.IsNearest IsBoundary n a ∧ Marks tables t a .staticReadonlyFieldInit
  | tag => ∃ a, t.IsAncestor a n ∧ Marks tables t a tag

theorem isMember_iff (kind : Kind) : isMember kind = true ↔ IsBoundary kind := by
  cases kind <;> decide

/-! ## One node -/

section Node

variable {tables : Tables} {t : Tree} {n : Node} {name : String} {tag : Tag}

theorem registers_iff : tables.registers name = true ↔
    (∃ start ∈ tables.registrationStarts, start.toList <+: name.toList) ∨
      name ∈ tables.registrationMethods := by
  simp [Tables.registers, Text.startsWith_iff]

/-- What is called: the name of the member at the head of the call. -/
theorem gives_invokedMember (h : t.WellFormed) {invocation : Node} (hmem : invocation ∈ t.nodes) :
    Gives (fun method? => ∀ name, method? = some name ↔
      ∃ callee ∈ t.nodes, invocation.children.head? = some callee.index ∧
        callee.kind = .memberAccess ∧ callee.name = some name)
      (invokedMember t invocation) := by
  refine gives_bind (gives_memberCallee h hmem) fun callee? hcallee? => gives_pure fun name => ?_
  rw [Option.bind_eq_some_iff]
  constructor
  · rintro ⟨callee, hcallee, hname⟩
    obtain ⟨hmem, hfirst, hkind⟩ := (hcallee? callee).mp hcallee
    exact ⟨callee, hmem, hfirst, hkind, hname⟩
  · rintro ⟨callee, hmem, hfirst, hkind, hname⟩
    exact ⟨callee, (hcallee? callee).mpr ⟨hmem, hfirst, hkind⟩, hname⟩

/-- A node has one parent, so that only the call around its own argument matters. -/
theorem isRegistered_iff_of_links (h : t.WellFormed) {argument invocation : Node}
    (hargument : argument ∈ t.nodes ∧ n.parent = some argument.index ∧ argument.kind = .argument)
    (hinvocation : invocation ∈ t.nodes ∧ argument.parent = some invocation.index ∧
      invocation.kind = .invocation) :
    IsRegistered tables t n ↔ ∃ name, tables.registers name = true ∧
      ∃ callee ∈ t.nodes, invocation.children.head? = some callee.index ∧
        callee.kind = .memberAccess ∧ callee.name = some name := by
  obtain ⟨hmem, hparent, hkind⟩ := hargument
  obtain ⟨hmem', hparent', hkind'⟩ := hinvocation
  constructor
  · rintro ⟨argument₁, hmem₁, hparent₁, -, invocation₁, hmem₂, hparent₂, -, hcallee⟩
    obtain rfl := h.eq_of_index_eq hmem hmem₁ (Option.some.inj (hparent.symm.trans hparent₁))
    obtain rfl := h.eq_of_index_eq hmem' hmem₂ (Option.some.inj (hparent'.symm.trans hparent₂))
    obtain ⟨callee, hcallee, hfirst, hkind, name, hname, hregisters⟩ := hcallee
    exact ⟨name, registers_iff.mpr hregisters, callee, hcallee, hfirst, hkind, hname⟩
  · rintro ⟨name, hregisters, callee, hcallee, hfirst, hkind₁, hname⟩
    exact ⟨argument, hmem, hparent, hkind, invocation, hmem', hparent', hkind', callee, hcallee,
      hfirst, hkind₁, name, hname, registers_iff.mp hregisters⟩

theorem gives_isRegistrationArgument (h : t.WellFormed) (tables : Tables) (hn : n ∈ t.nodes) :
    Gives (fun registered => registered = true ↔ IsRegistered tables t n)
      (isRegistrationArgument tables t n) := by
  refine gives_bind (gives_parentOfKind h .argument hn) fun argument? hargument => ?_
  cases argument? with
  | none =>
      refine gives_pure (iff_of_false Bool.false_ne_true ?_)
      rintro ⟨argument, hmem, hparent, hkind, -⟩
      exact nomatch (hargument argument).mpr ⟨hmem, hparent, hkind⟩
  | some argument =>
      have hargument := (hargument argument).mp rfl
      refine gives_bind (gives_parentOfKind h .invocation hargument.1)
        fun invocation? hinvocation => ?_
      cases invocation? with
      | none =>
          refine gives_pure (iff_of_false Bool.false_ne_true ?_)
          rintro ⟨argument', hmem, hparent, -, invocation, hmem', hparent', hkind', -⟩
          obtain rfl := h.eq_of_index_eq hargument.1 hmem
            (Option.some.inj (hargument.2.1.symm.trans hparent))
          exact nomatch (hinvocation invocation).mpr ⟨hmem', hparent', hkind'⟩
      | some invocation =>
          have hinvocation := (hinvocation invocation).mp rfl
          rw [isRegistered_iff_of_links h hargument hinvocation]
          refine gives_bind (gives_invokedMember h hinvocation.1) fun method? hmethod => ?_
          simp only [← hmethod]
          cases method? with
          | none => exact gives_pure (by simp)
          | some method => exact gives_pure (by simp)

/-- The tags that the name of a class or record gives are those whose marks it bears. -/
theorem mem_classTags_iff (hkind : n.kind = .classDeclaration ∨ n.kind = .recordDeclaration) :
    tag ∈ tables.classTags (n.name.getD "") ↔ Marks tables t n tag := by
  have hmethod : n.kind ≠ .method := by rcases hkind with hkind | hkind <;> simp [hkind]
  have hother : n.kind ≠ .field ∧ n.kind ≠ .lambda ∧ n.kind ≠ .anonymousMethod := by
    rcases hkind with hkind | hkind <;> simp [hkind]
  cases tag <;>
    simp [Tables.classTags, Marks, IsTypeNamed, IsMethodNamed, Text.startsWith_iff,
      Text.endsWith_iff, Text.contains_iff, hkind, hmethod, hother]

theorem mem_methodTags_iff (hkind : n.kind = .method) :
    tag ∈ tables.methodTags (n.name.getD "") ↔ Marks tables t n tag := by
  cases tag <;> simp [Tables.methodTags, Marks, IsTypeNamed, IsMethodNamed, hkind]

theorem mem_fieldTags_iff (hkind : n.kind = .field) :
    tag ∈ tables.fieldTags n.toFacts ↔ Marks tables t n tag := by
  cases tag <;>
    simp [Tables.fieldTags, Facts.hasModifier, Marks, IsTypeNamed, IsMethodNamed, hkind]

/-- A function gives its tag if it is registered. -/
theorem gives_functionTags (h : t.WellFormed) (tables : Tables) (hn : n ∈ t.nodes)
    (hkind : n.kind = .lambda ∨ n.kind = .anonymousMethod) :
    Gives (fun tags => ∀ tag, tag ∈ tags ↔ Marks tables t n tag)
      (do return if ← isRegistrationArgument tables t n then [Tag.factoryDelegate] else []) := by
  refine gives_bind (gives_isRegistrationArgument h tables hn) fun registered hregistered => ?_
  refine gives_pure fun tag => ?_
  have hother : n.kind ≠ .classDeclaration ∧ n.kind ≠ .recordDeclaration ∧ n.kind ≠ .method ∧
      n.kind ≠ .field := by rcases hkind with hkind | hkind <;> simp [hkind]
  cases tag <;> simp [Marks, IsTypeNamed, IsMethodNamed, ← hregistered, hkind, hother]

/-- Only fields bear the mark that a member in between takes away. -/
theorem marks_and_spared_iff (hkind : n.kind ≠ .field) (inMember : Bool) :
    Marks tables t n tag ∧ ¬(tag = .staticReadonlyFieldInit ∧ inMember = true) ↔
      Marks tables t n tag := by
  refine and_iff_left_of_imp fun hmarks hstatic => ?_
  rw [hstatic.1] at hmarks
  exact hkind hmarks.1

/-- **A node gives the tags whose marks it bears**, apart from a field around a member that the
walk has met before. -/
theorem gives_tagsOf (h : t.WellFormed) (tables : Tables) (inMember : Bool) (hn : n ∈ t.nodes) :
    Gives (fun tags => ∀ tag, tag ∈ tags ↔
      Marks tables t n tag ∧ ¬(tag = .staticReadonlyFieldInit ∧ inMember = true))
      (tagsOf tables t inMember n) := by
  unfold tagsOf
  split
  case h_1 hkind =>
    refine gives_pure fun tag => ?_
    rw [marks_and_spared_iff (by simp [hkind]), mem_classTags_iff (Or.inl hkind)]
  case h_2 hkind =>
    refine gives_pure fun tag => ?_
    rw [marks_and_spared_iff (by simp [hkind]), mem_classTags_iff (Or.inr hkind)]
  case h_3 hkind =>
    refine gives_pure fun tag => ?_
    rw [marks_and_spared_iff (by simp [hkind]), mem_methodTags_iff hkind]
  case h_4 hkind =>
    refine gives_pure fun tag => ?_
    rw [← mem_fieldTags_iff hkind]
    cases inMember with
    | false => simp
    | true => cases tag <;> simp [Tables.fieldTags]
  case h_5 hkind =>
    refine (gives_functionTags h tables hn (Or.inl hkind)).mono fun tags htags tag => ?_
    rw [marks_and_spared_iff (by simp [hkind]), htags]
  case h_6 hkind =>
    refine (gives_functionTags h tables hn (Or.inr hkind)).mono fun tags htags tag => ?_
    rw [marks_and_spared_iff (by simp [hkind]), htags]
  case h_7 hclass hrecord hmethod hfield hlambda hanonymous =>
    refine gives_pure fun tag => ?_
    rw [marks_and_spared_iff hfield]
    cases tag <;> simp_all [Marks, IsTypeNamed, IsMethodNamed]

end Node

/-! ## The walk -/

section Walk

variable {tables : Tables} {t : Tree} {n : Node} {nodes : List Node} {tag : Tag}

/-- The tags of a walk over the nodes: the marks that they bear, and of the members only the mark
of the first one, unless a member has been met before. -/
def Collects (tables : Tables) (t : Tree) (inMember : Bool) (nodes : List Node) : Tag → Prop
  | .staticReadonlyFieldInit =>
      inMember = false ∧ ∃ a, nodes.find? (fun m => decide (IsBoundary m.kind)) = some a ∧
        Marks tables t a .staticReadonlyFieldInit
  | tag => ∃ a ∈ nodes, Marks tables t a tag

theorem not_collects_nil (inMember : Bool) : ¬Collects tables t inMember [] tag := by
  cases tag <;> simp [Collects]

/-- One step of the walk. -/
theorem collects_cons_iff (inMember : Bool) : Collects tables t inMember (n :: nodes) tag ↔
    (Marks tables t n tag ∧ ¬(tag = .staticReadonlyFieldInit ∧ inMember = true)) ∨
      Collects tables t (inMember || isMember n.kind) nodes tag := by
  cases tag with
  | staticReadonlyFieldInit =>
      cases inMember with
      | true => simp [Collects]
      | false =>
          by_cases hboundary : IsBoundary n.kind
          · have hmember : isMember n.kind = true := (isMember_iff _).mpr hboundary
            simp [Collects, hboundary, hmember]
          · have hmember : isMember n.kind = false :=
              Bool.eq_false_iff.mpr fun hmember => hboundary ((isMember_iff _).mp hmember)
            have hmarks : ¬Marks tables t n .staticReadonlyFieldInit := fun hmarks =>
              hboundary (Or.inl hmarks.1)
            simp [Collects, hboundary, hmember, hmarks]
  | _ => simp [Collects]

/-- **A walk collects the tags of the nodes that it meets.** -/
theorem gives_collectTags (h : t.WellFormed) (tables : Tables) (inMember : Bool)
    (hnodes : ∀ m ∈ nodes, m ∈ t.nodes) :
    Gives (fun tags => ∀ tag, tag ∈ tags ↔ Collects tables t inMember nodes tag)
      (collectTags tables t inMember nodes) := by
  induction nodes generalizing inMember with
  | nil => exact gives_pure fun tag => by simp [not_collects_nil]
  | cons m rest ih =>
      obtain ⟨hm, hrest⟩ := List.forall_mem_cons.mp hnodes
      refine gives_bind (gives_tagsOf h tables inMember hm) fun first hfirst => ?_
      refine gives_bind (ih (inMember || isMember m.kind) hrest) fun others hothers => ?_
      refine gives_pure fun tag => ?_
      rw [List.mem_append, hfirst, hothers, collects_cons_iff]

/-- The nodes that the walk from a node to the root meets are those above it. -/
theorem collects_wayUp_iff (h : t.WellFormed) (hn : n ∈ t.nodes) (hway : t.IsWayUp n nodes) :
    Collects tables t false nodes tag ↔ IsTagged tables t n tag := by
  cases tag <;> simp [Collects, IsTagged, h.mem_wayUp_iff hn hway, h.find?_wayUp_iff hn hway]

/-- Every node of a well-formed tree can be classified, and its tags are those of its place. -/
theorem gives_classify (h : t.WellFormed) (tables : Tables) (hn : n ∈ t.nodes) :
    Gives (fun tags => ∀ tag, tag ∈ tags ↔ IsTagged tables t n tag) (classify tables t n) := by
  refine gives_bind (h.gives_ancestors hn) fun line hway => ?_
  have hline := fun m hm => Tree.mem_nodes_of_isWayUp hway (m := m) hm
  refine (gives_collectTags h tables false hline).mono fun tags htags tag => ?_
  rw [htags, collects_wayUp_iff h hn hway]

end Walk

/-! ## Places -/

/-- **Classification is exact.** In a tree that was built or decoded, with any tables, every node is
classified, and it has a tag if and only if a node above it bears the mark of the tag, or, for the
tag of an initializer, if the nearest field, method, constructor or property above it does. -/
theorem tags_exactly_of_marks (t : Tree) (hmade : IsMade t) (tables : Tables) (n : Node)
    (hn : n ∈ t.nodes) :
    ∃ tags, classify tables t n = .ok tags ∧ ∀ tag, tag ∈ tags ↔ IsTagged tables t n tag :=
  gives_classify (wellFormed_of_isMade hmade) tables hn

/-- A shared field of a test class whose initializer registers a lambda, in a record that holds the
class. -/
def initializerCalls : List Builder.Call :=
  [.add none { kind := .recordDeclaration, name := some "OrderRepository" },
   .add (some 1) { kind := .classDeclaration, name := some "StartupTests" },
   .add (some 2) { kind := .field, modifiers := ["private", "static", "readonly"] },
   .add (some 3) { kind := .invocation },
   .add (some 4) { kind := .memberAccess, name := some "AddScoped" },
   .add (some 4) { kind := .argument }, .add (some 6) { kind := .lambda },
   .add (some 7) { kind := .objectCreation }, .build]

/-- The tree that the calls build. -/
def initializerTree : Tree := ((Builder.start "src/App.cs").run initializerCalls).2.tree

set_option maxRecDepth 4000 in
/-- What is created in the lambda has the tags of all that is around it. -/
theorem tags_exactly_of_marks_nested :
    ∃ n, initializerTree.nodes[8]? = some n ∧ n.kind = .objectCreation ∧
      ∀ tag, IsTagged {} initializerTree n tag ↔
        tag ∈ [Tag.factoryDelegate, .staticReadonlyFieldInit, .testClass, .dataAccessClass] := by
  have hmade : IsMade initializerTree :=
    Or.inl ⟨"src/App.cs", initializerCalls, List.mem_of_getElem? (i := 8) rfl⟩
  obtain ⟨n, hn, hkind, hclassify⟩ : ∃ n, initializerTree.nodes[8]? = some n ∧
      n.kind = .objectCreation ∧ classify {} initializerTree n =
        .ok [.factoryDelegate, .staticReadonlyFieldInit, .testClass, .dataAccessClass] :=
    ⟨_, rfl, rfl, rfl⟩
  obtain ⟨tags, htags, hiff⟩ :=
    tags_exactly_of_marks initializerTree hmade {} n (Array.mem_of_getElem? hn)
  refine ⟨n, hn, hkind, fun tag => ?_⟩
  rw [← hiff, Except.ok.inj (htags.symm.trans hclassify)]

end SeamLint.Surroundings
