import SeamLint.Proofs.DecisionPoints
import SeamLint.Proofs.FindingNumbers
import SeamLint.Proofs.PlaceTags
import SeamLint.Proofs.Resolution
import SeamLint.Proofs.ScanOrder

set_option autoImplicit false

/-! # The rules of the catalogue never fail

A rule follows links, walks up and down, and looks at its settings, and each of these can fail.
In trees that were built or decoded no walk does (`IsMade`), and settings can be had as long as
no threshold is set to an integer that cannot be read (`Reader.IsSettled`). So every rule of the
catalogue judges every node that it is shown (`catalog_isTotal`), and a scan has no errors.

That is not enough for a report: a finding whose number has too many digits to be shown cannot
be listed, and takes all other findings with it (`no_report_of_huge_method`).
-/

namespace SeamLint.Rule

open SeamLint.Code SeamLint.Settings SeamLint.Surroundings

/-! ## What rules are promised -/

/-- The rule is shown a node of its kinds in a well-formed tree, and its settings can be had and
declare its thresholds. -/
structure Ready (r : Rule) (context : Context) (n : Node) : Prop where
  wellFormed : context.tree.WellFormed
  mem_nodes : n ∈ context.tree.nodes
  mem_kinds : n.kind ∈ r.kinds
  settings : Gives (fun s => ∀ d ∈ r.thresholds, ∃ value, s.threshold d.1 = .ok value)
    context.settings

/-- The rule judges every node for which it is ready. -/
def IsTotal (r : Rule) : Prop :=
  ∀ (context : Context) (n : Node), r.Ready context n →
    Gives (fun _ => True) (r.evaluate context n)

section Steps

variable {α : Type} {P : α → Prop} {context : Context} {n : Node}

theorem gives_code {x : Except Code.Fault α} (h : Gives P x) :
    Gives P (liftM x : Except Stop α) := by
  obtain ⟨a, rfl, ha⟩ := h
  exact ⟨a, rfl, ha⟩

theorem gives_measure {x : Except (Code.Stop Code.Fault) α} (h : Gives P x) :
    Gives P (liftM x : Except Stop α) := by
  obtain ⟨a, rfl, ha⟩ := h
  exact ⟨a, rfl, ha⟩

theorem gives_threshold {s : RuleSettings} {name : String}
    (h : ∃ value, s.threshold name = .ok value) :
    Gives (fun _ => True) (liftM (s.threshold name) : Except Stop Int) := by
  obtain ⟨value, hvalue⟩ := h
  rw [hvalue]
  exact ⟨value, rfl, trivial⟩

theorem gives_tags (h : context.tree.WellFormed) (hn : n ∈ context.tree.nodes) :
    Gives (fun _ => True) (context.tags n) :=
  gives_code ((gives_classify h context.tables hn).mono fun _ _ => trivial)

theorem gives_excludesTypeOf {Q : RuleSettings → Prop} (h : Gives Q context.settings)
    (symbol : Option Symbol) : Gives (fun _ => True) (context.excludesTypeOf symbol) := by
  cases symbol with
  | none => exact gives_pure trivial
  | some s => exact gives_bind h fun _ _ => gives_pure trivial

/-! ## Parts of rules -/

theorem gives_asksProvider (h : context.tree.WellFormed) (hn : n ∈ context.tree.nodes)
    (s : Symbol) : Gives (fun _ => True) (asksProvider context n s) := by
  unfold asksProvider
  split
  · exact gives_pure trivial
  · exact gives_bind (gives_tags h hn) fun _ _ => gives_pure trivial

theorem gives_hasLocatorReceiver (h : context.tree.WellFormed) (hn : n ∈ context.tree.nodes) :
    Gives (fun _ => True) (hasLocatorReceiver context n) := by
  refine gives_bind (gives_code (h.gives_firstChild hn)) fun receiver _ => ?_
  repeat' first
    | exact gives_pure trivial
    | split

theorem gives_isStartedAtOnce (h : context.tree.WellFormed) (hn : n ∈ context.tree.nodes) :
    Gives (fun _ => True) (isStartedAtOnce context n) := by
  refine gives_bind (gives_code (gives_parentOfKind h .memberAccess hn)) fun access? haccess => ?_
  cases access? with
  | none => exact gives_pure trivial
  | some access =>
      have hmem := ((haccess access).mp rfl).1
      dsimp only
      split
      · exact gives_pure trivial
      · exact gives_bind (gives_code (gives_parentOfKind h .invocation hmem)) fun _ _ =>
          gives_pure trivial

theorem gives_startsProcess (h : context.tree.WellFormed) (hn : n ∈ context.tree.nodes) :
    Gives (fun _ => True) (startsProcess context n) := by
  unfold startsProcess
  repeat' first
    | exact gives_pure trivial
    | exact gives_isStartedAtOnce h hn
    | split

end Steps

/-! ## Rules that look at symbols -/

theorem isTotal_of_symbols : ∀ r ∈ [guidCreation, environmentVariable, staticProperty,
    ambientContext, fileSystemAccess], r.IsTotal := by
  simp only [List.forall_mem_cons]
  refine ⟨?_, ?_, ?_, ?_, ?_, List.forall_mem_nil _⟩
  all_goals
    intro context n h
    simp only [guidCreation, environmentVariable, staticProperty, ambientContext,
      fileSystemAccess]
    -- tests of the symbol come first, and at most one look at the settings follows
    repeat' first
      | split
      | refine gives_bind (gives_excludesTypeOf h.settings _) fun _ _ => ?_
      | exact gives_pure trivial

/-! ## Rules that follow links -/

theorem isTotal_concreteParameter : concreteParameter.IsTotal := by
  intro context n h
  simp only [concreteParameter]
  refine gives_bind (gives_code (gives_parentOfKind h.wellFormed _ h.mem_nodes)) fun owner _ => ?_
  repeat' first
    | split
    | refine gives_bind h.settings fun _ _ => ?_
    | exact gives_pure trivial

theorem isTotal_serviceLocator : serviceLocator.IsTotal := by
  intro context n h
  simp only [serviceLocator]
  refine gives_bind (gives_code (gives_memberCallee h.wellFormed h.mem_nodes))
    fun access? haccess => ?_
  cases access? with
  | none => exact gives_pure trivial
  | some access =>
      have hprovider := gives_asksProvider h.wellFormed h.mem_nodes
      have hreceiver := gives_hasLocatorReceiver h.wellFormed ((haccess access).mp rfl).1
      dsimp only
      repeat' first
        | split
        | refine gives_bind (gives_excludesTypeOf h.settings _) fun _ _ => ?_
        | refine gives_bind (hprovider _) fun _ _ => ?_
        | refine gives_bind hreceiver fun _ _ => ?_
        | exact gives_pure trivial

theorem isTotal_staticCall : staticCall.IsTotal := by
  intro context n h
  have hcallee := gives_code (gives_memberCallee h.wellFormed h.mem_nodes)
  simp only [staticCall]
  repeat' first
    | split
    | refine gives_bind hcallee fun _ _ => ?_
    | refine gives_bind h.settings fun _ _ => ?_
    | exact gives_pure trivial

theorem isTotal_of_callees : ∀ r ∈ [clockRead, sharedRandom], r.IsTotal := by
  simp only [List.forall_mem_cons]
  refine ⟨?_, ?_, List.forall_mem_nil _⟩
  all_goals
    intro context n h
    have hcallee := gives_code (gives_memberCallee h.wellFormed h.mem_nodes)
    -- a callee that was found is a node of the tree, so its receiver can be looked up
    have hreceiver : ∀ access ∈ context.tree.nodes,
        Gives _ (liftM (context.tree.firstChild access) : Except Stop _) :=
      fun access haccess => gives_code (h.wellFormed.gives_firstChild haccess)
    simp only [clockRead, clockProperty, systemClock, sharedRandom]
    repeat' first
      | split
      | refine gives_bind hcallee fun access haccess => ?_
      | refine gives_bind (hreceiver _ ((haccess _).mp rfl).1) fun _ _ => ?_
      | refine gives_bind (gives_excludesTypeOf h.settings _) fun _ _ => ?_
      | exact gives_pure trivial

theorem isTotal_processStart : processStart.IsTotal := by
  intro context n h
  simp only [processStart]
  refine gives_bind (gives_startsProcess h.wellFormed h.mem_nodes) fun starts _ => ?_
  repeat' first
    | split
    | refine gives_bind (gives_excludesTypeOf h.settings _) fun _ _ => ?_
    | exact gives_pure trivial

/-! ## Rules that look around -/

theorem isTotal_of_surroundings :
    ∀ r ∈ [directInstantiation, httpClientCreation, databaseAccess], r.IsTotal := by
  simp only [List.forall_mem_cons]
  refine ⟨?_, ?_, ?_, List.forall_mem_nil _⟩
  all_goals
    intro context n h
    have htags := gives_tags h.wellFormed h.mem_nodes
    simp only [directInstantiation, httpClientCreation, databaseAccess]
    repeat' first
      | split
      | refine gives_bind htags fun _ _ => ?_
      | refine gives_bind (gives_excludesTypeOf h.settings _) fun _ _ => ?_
      | refine gives_bind h.settings fun _ _ => ?_
      | exact gives_pure trivial

theorem isTotal_staticMutableField : staticMutableField.IsTotal := by
  intro context n h
  simp only [staticMutableField]
  refine gives_bind (gives_code (gives_parentOfKind h.wellFormed _ h.mem_nodes))
    fun field? hfield => ?_
  cases field? with
  | none => exact gives_pure trivial
  | some field =>
      have htags := gives_tags h.wellFormed ((hfield field).mp rfl).1
      dsimp only
      repeat' first
        | split
        | refine gives_bind htags fun _ _ => ?_
        | refine gives_bind h.settings fun _ _ => ?_
        | exact gives_pure trivial

/-! ## Rules about methods -/

theorem isTotal_nonVirtualMethod : nonVirtualMethod.IsTotal := by
  intro context n h
  have hbody := gives_code (h.wellFormed.gives_body h.mem_nodes)
  have howner := gives_code (h.wellFormed.gives_enclosing h.mem_nodes Kind.isTypeDeclaration)
  simp only [nonVirtualMethod]
  repeat' first
    | split
    | refine gives_bind hbody fun _ _ => ?_
    | refine gives_bind howner fun _ _ => ?_
    | refine gives_bind h.settings fun _ _ => ?_
    | exact gives_pure trivial

theorem isTotal_largePrivateMethod : largePrivateMethod.IsTotal := by
  intro context n h
  have hbody := gives_code (h.wellFormed.gives_body h.mem_nodes)
  have hsettings : Gives (fun s => ∃ value, s.threshold lineThreshold = .ok value)
      context.settings :=
    h.settings.mono fun s hs => hs (lineThreshold, 50) (List.mem_singleton.mpr rfl)
  simp only [largePrivateMethod]
  repeat' first
    | split
    | refine gives_bind hbody fun _ _ => ?_
    | refine gives_bind hsettings fun s hs => ?_
    | refine gives_bind (gives_threshold hs) fun _ _ => ?_
    | exact gives_pure trivial

theorem isTotal_highComplexity : highComplexity.IsTotal := by
  intro context n h
  -- the complexity is that of a code unit, and the rule is shown no other nodes
  have hunit : n.kind.isCodeUnit = true := by
    have hkinds : ∀ kind ∈ highComplexity.kinds, kind.isCodeUnit = true := by decide
    exact hkinds n.kind h.mem_kinds
  have hbody := gives_code (h.wellFormed.gives_body h.mem_nodes)
  have hscore := gives_measure (Measure.gives_complexityAt h.wellFormed h.mem_nodes hunit)
  have hname := gives_code (Measure.gives_displayName h.wellFormed h.mem_nodes)
  have hsettings : Gives (fun s => ∃ value, s.threshold complexityThreshold = .ok value)
      context.settings :=
    h.settings.mono fun s hs => hs (complexityThreshold, 25) (List.mem_singleton.mpr rfl)
  simp only [highComplexity]
  repeat' first
    | split
    | refine gives_bind hbody fun _ _ => ?_
    | refine gives_bind hsettings fun s hs => ?_
    | refine gives_bind (gives_threshold hs) fun _ _ => ?_
    | refine gives_bind hscore fun _ _ => ?_
    | refine gives_bind hname fun _ _ => ?_
    | exact gives_pure trivial

/-- **Every rule of the catalogue judges every node that it is shown.** -/
theorem catalog_isTotal : ∀ r ∈ catalog, r.IsTotal := by
  have hsymbols := isTotal_of_symbols
  have hcallees := isTotal_of_callees
  have haround := isTotal_of_surroundings
  simp only [catalog, List.forall_mem_cons] at hsymbols hcallees haround ⊢
  obtain ⟨hguid, henvironment, hproperty, hambient, hfile, -⟩ := hsymbols
  obtain ⟨hclock, hrandom, -⟩ := hcallees
  obtain ⟨hcreation, hhttp, hdatabase, -⟩ := haround
  exact ⟨hcreation, isTotal_concreteParameter, isTotal_serviceLocator, isTotal_staticCall,
    hclock, hguid, henvironment, hproperty, isTotal_nonVirtualMethod,
    isTotal_largePrivateMethod, isTotal_staticMutableField, hambient, hfile, hhttp, hdatabase,
    isTotal_processStart, hrandom, isTotal_highComplexity, List.forall_mem_nil _⟩

end SeamLint.Rule

namespace SeamLint.Scan

open SeamLint.Code SeamLint.Finding SeamLint.Rule SeamLint.Settings

/-! ## Settings -/

/-- The keys of the thresholds of the catalogue. -/
def thresholdKeys : List String :=
  [optionKey "SEAM011" "complexity_threshold",
   optionKey "SEAM020" "cyclomatic_complexity_threshold"]

/-- No other threshold is declared by a rule of the catalogue. -/
theorem mem_thresholdKeys : ∀ r ∈ catalog, ∀ d ∈ r.thresholds,
    optionKey r.id d.1 ∈ thresholdKeys := by
  decide

/-- A rule of the catalogue, with settings for the tree that were put together from some
answers, whatever they are but for the thresholds. -/
structure Reader.IsSettled (reader : Reader) (t : Tree) : Prop where
  rule : reader.rule ∈ catalog
  tree : reader.context.tree = t
  settings : ∃ ask : Answers, (∀ number, ∀ key ∈ thresholdKeys, (ask number key).IsUsable) ∧
    reader.context.settings =
      (resolveWith (requestFor t reader.rule) ask).settings.mapError
        fun fault => .raised (.integer fault)

theorem Reader.IsSettled.ready {reader : Reader} {t : Tree} {n : Node}
    (h : reader.IsSettled t) (hwf : t.WellFormed) (hn : n ∈ t.nodes)
    (hkind : reader.rule.kinds.contains n.kind = true) :
    reader.rule.Ready reader.context n := by
  obtain ⟨ask, husable, hsettings⟩ := h.settings
  obtain ⟨s, hs⟩ : ∃ s, (resolveWith (requestFor t reader.rule) ask).settings = .ok s := by
    refine exists_settings_iff.mpr fun d hd => husable d.2 _ ?_
    have hdefault := mem_normal_defaults.mp (List.fst_mem_of_mem_zipIdx hd)
    exact mem_thresholdKeys reader.rule h.rule d.1 hdefault
  refine ⟨h.tree ▸ hwf, h.tree ▸ hn, by simpa using hkind, s, ?_, fun d hd => ?_⟩
  · rw [hsettings, hs]
    rfl
  · exact exists_threshold hs hd

/-- The default of a threshold can be written. -/
theorem isWritable_default {r : Rule} (hr : r ∈ catalog) {d : String × Int}
    (hd : d ∈ r.thresholds) : Number.isWritable d.2 = true := by
  have hsmall : ∀ r ∈ catalog, ∀ d ∈ r.thresholds, d.2.natAbs < 10 ^ 2 := by decide
  exact Number.isWritable_of_small (hsmall r hr d hd)

/-- The thresholds of a settled rule can be written. -/
theorem Reader.IsSettled.isWritable {reader : Reader} {t : Tree} (h : reader.IsSettled t)
    {name : String} {value : Int} (hvalue : reader.context.HasThreshold name value) :
    Number.isWritable value = true := by
  obtain ⟨ask, -, hsettings⟩ := h.settings
  obtain ⟨s, hs, hthreshold⟩ := hvalue
  refine isWritable_threshold (eq_ok_of_mapError (hsettings.symm.trans hs)) ?_ hthreshold
  exact fun d hd => isWritable_default h.rule hd

/-- The rules of an engine are settled if the provider's answers for thresholds are usable. -/
theorem isSettled_reader {e : Engine} {t : Tree} {r : Rule} (hr : r ∈ catalog)
    (hkeys : ∀ key ∈ thresholdKeys, (e.provider t.path key).IsUsable) :
    (e.reader t r).IsSettled t :=
  ⟨hr, rfl, fun _ => e.provider t.path, fun _ => hkeys, rfl⟩

/-! ## Runs -/

/-- Every finding of an engine was made by one of its rules at a node of one of the trees. -/
theorem exists_visit_of_mem_scan {e : Engine} {trees : List Tree} {f : Finding}
    (hf : f ∈ (e.scan trees).findings) :
    ∃ t ∈ trees, ∃ r ∈ e.rules, ∃ n ∈ t.nodes,
      r.evaluate (e.context t r) n = .ok (some f) := by
  have hmem : f ∈ (trees.map e.analyze).flatMap Progress.findings :=
    (sortFindings_perm _).mem_iff.mp hf
  obtain ⟨p, hp, hf⟩ := List.mem_flatMap.mp hmem
  obtain ⟨t, ht, rfl⟩ := List.mem_map.mp hp
  obtain ⟨r, hr, n, hn, -, hfound⟩ := exists_visit_of_mem_run ((sortFindings_perm _).mem_iff.mp hf)
  exact ⟨t, ht, r, hr, n, hn, hfound⟩

/-- In well-formed trees every rule of the catalogue comes to an end, whatever its settings are. -/
theorem ends_of_wellFormed {e : Engine} {t : Tree} (hrules : ∀ r ∈ e.rules, r ∈ catalog)
    (h : t.WellFormed) : e.Ends t :=
  ends_of_complexity hrules fun _ hn => Measure.complexityAt_ne_endless h hn

/-- A settled rule judges every node of a tree that was built or decoded. -/
theorem Reader.IsSettled.gives_evaluate {reader : Reader} {t : Tree} {n : Node}
    (h : reader.IsSettled t) (hmade : IsMade t) (hn : n ∈ t.nodes)
    (hkind : reader.rule.kinds.contains n.kind = true) :
    Gives (fun _ => True) (reader.rule.evaluate reader.context n) :=
  catalog_isTotal reader.rule h.rule reader.context n
    (h.ready (wellFormed_of_isMade hmade) hn hkind)

section

variable {e : Engine} {trees : List Tree} (hrules : ∀ r ∈ e.rules, r ∈ catalog)
  (hkeys : ∀ t ∈ trees, ∀ key ∈ thresholdKeys, (e.provider t.path key).IsUsable)

include hrules hkeys

/-- On the way through a tree no rule fails or gets stuck. -/
theorem run_of_isMade {t : Tree} (ht : t ∈ trees) (hmade : IsMade t) :
    (e.run t).failures = [] ∧ (e.run t).isStuck = false := by
  have hgives : ∀ v ∈ visits (e.readers t) t.nodes.toList,
      Gives (fun _ => True) (v.1.rule.evaluate v.1.context v.2) := by
    intro v hv
    obtain ⟨r, hr, hreader⟩ := exists_rule_of_mem_visits hv
    obtain ⟨hn, hkind⟩ := mem_of_mem_visits hv
    have hsettled : v.1.IsSettled t := hreader ▸ isSettled_reader (hrules r hr) (hkeys t ht)
    exact hsettled.gives_evaluate hmade (Array.mem_toList_iff.mp hn) hkind
  rw [Engine.run, foldl_visit_of_gives hgives []]
  exact ⟨rfl, rfl⟩

variable (hmade : ∀ t ∈ trees, IsMade t)

include hmade

theorem errors_scan_eq_nil : (e.scan trees).errors = [] := by
  show (trees.map e.analyze).flatMap (fun p => p.failures.map Failure.message) = []
  rw [List.flatMap_eq_nil_iff]
  intro p hp
  obtain ⟨t, ht, rfl⟩ := List.mem_map.mp hp
  show (e.run t).failures.map _ = []
  rw [(run_of_isMade hrules hkeys ht (hmade t ht)).1]
  rfl

/-- Only nodes that are out of all measure keep an engine from reporting what it has found. -/
theorem report_eq_ok_or_isHuge :
    e.report trees = .ok (e.scan trees) ∨ ∃ t ∈ trees, ∃ n ∈ t.nodes, IsHuge t n := by
  by_cases hhuge : ∃ t ∈ trees, ∃ n ∈ t.nodes, IsHuge t n
  · exact Or.inr hhuge
  · -- otherwise every finding can be shown, because its rule could be settled
    left
    refine report_eq_ok_iff.mpr ⟨fun t ht => ?_, rfl⟩
    have hruns := (run_of_isMade hrules hkeys ht (hmade t ht)).2
    refine ⟨_, listed_eq_ok_iff.mpr ⟨hruns, fun f hf => ?_, rfl⟩⟩
    obtain ⟨r, hr, n, hn, -, hfound⟩ := exists_visit_of_mem_run hf
    have hsettled : (e.reader t r).IsSettled t := isSettled_reader (hrules r hr) (hkeys t ht)
    rcases isShowable_or_isHuge (hrules r hr) (fun _ _ => hsettled.isWritable) hfound with hf | hn'
    · exact hf
    · exact absurd ⟨t, ht, n, hn, hn'⟩ hhuge

end

/-- **The catalogue runs without errors.** In trees that were built or decoded, with any rules
of the catalogue and any answers but unreadable thresholds, a scan has no errors, and there is a
report unless the lines or the complexity of some node have more digits than are written. The
way up from any node ends at the root, the way down comes to an end and so does the counting of
decision points, every place is classified, every code unit has a complexity, and every rule judges
every node that it is shown, also if the answers to its lookups change from one visit to the
next. -/
theorem catalog_runs_without_errors (e : Engine) (hrules : ∀ r ∈ e.rules, r ∈ catalog)
    (trees : List Tree) (hmade : ∀ t ∈ trees, IsMade t)
    (hkeys : ∀ t ∈ trees, ∀ key ∈ thresholdKeys, (e.provider t.path key).IsUsable) :
    (e.scan trees).errors = [] ∧
    (e.report trees = .ok (e.scan trees) ∨ ∃ t ∈ trees, ∃ n ∈ t.nodes, IsHuge t n) ∧
    ∀ t ∈ trees,
      (∀ n ∈ t.nodes,
        (∃ line, t.ancestors n = .ok line ∧ t.IsWayUp n line) ∧
        (∃ count, (∀ depth, t.size ≤ depth → Measure.decisionsBelow t depth n = .ok count) ∧
          ∀ score rest, Measure.tally t score (n :: rest) = Measure.tally t (score + count) rest) ∧
        (∃ tags, Surroundings.classify e.tables t n = .ok tags) ∧
        (n.kind.isCodeUnit = true → ∃ score, Measure.complexityAt t n = .ok score) ∧
        ∀ reader : Reader, reader.IsSettled t → reader.rule.kinds.contains n.kind = true →
          ∃ found, reader.rule.evaluate reader.context n = .ok found) ∧
      ∀ vs : List (Reader × Node), (∀ v ∈ vs, v.1.IsSettled t ∧ v.2 ∈ t.nodes ∧
          v.1.rule.kinds.contains v.2.kind = true) →
        (vs.foldl Progress.visit {}).failures = [] ∧
          (vs.foldl Progress.visit {}).isStuck = false := by
  refine ⟨errors_scan_eq_nil hrules hkeys hmade, report_eq_ok_or_isHuge hrules hkeys hmade,
    fun t ht => ⟨fun n hn => ?_, fun vs hvs => ?_⟩⟩
  · have hwf := wellFormed_of_isMade (hmade t ht)
    obtain ⟨tags, htags, -⟩ := Surroundings.gives_classify hwf e.tables hn
    refine ⟨hwf.gives_ancestors hn, ⟨_, fun depth hdepth => Measure.decisionsBelow_eq hwf hn
      (by omega), Measure.tally_eq hwf hn⟩, ⟨tags, htags⟩, fun hunit => ?_,
      fun reader hsettled hkind => ?_⟩
    · obtain ⟨score, hscore, -⟩ := Measure.gives_complexityAt hwf hn hunit
      exact ⟨score, hscore⟩
    · obtain ⟨found, hfound, -⟩ := hsettled.gives_evaluate (hmade t ht) hn hkind
      exact ⟨found, hfound⟩
  · have hgives : ∀ v ∈ vs, Gives (fun _ => True) (v.1.rule.evaluate v.1.context v.2) := by
      intro v hv
      obtain ⟨hsettled, hn, hkind⟩ := hvs v hv
      exact hsettled.gives_evaluate (hmade t ht) hn hkind
    rw [foldl_visit_of_gives hgives []]
    exact ⟨rfl, rfl⟩

/-- The whole catalogue on a tree from a builder that was also misused, with a provider that
fails but for the thresholds. -/
theorem catalog_runs_without_errors_failing :
    let calls : List Builder.Call :=
      [.add none { kind := .classDeclaration }, .add (some 9) { kind := .method },
       .add (some 1) { kind := .method }, .add (some 2) { kind := .block }, .build]
    let provider : Provider := fun _ key =>
      if key ∈ thresholdKeys then .text "\u3000-7\n" else .failed
    ∃ t, .built t ∈ ((Builder.start "src/App.cs").run calls).1 ∧ t.size = 4 ∧
      (Engine.scan ⟨catalog, provider, {}⟩ [t]).errors = [] := by
  intro calls provider
  obtain ⟨t, hreply, hsize⟩ : ∃ t, ((Builder.start "src/App.cs").run calls).1[4]? =
      some (.built t) ∧ t.size = 4 := ⟨_, rfl, rfl⟩
  have hbuilt : .built t ∈ ((Builder.start "src/App.cs").run calls).1 :=
    List.mem_of_getElem? hreply
  have husable : ∀ u ∈ [t], ∀ key ∈ thresholdKeys, (provider u.path key).IsUsable := by
    intro u _ key hkey text htext _
    rw [show provider u.path key = .text "\u3000-7\n" from if_pos hkey] at htext
    cases htext
    exact Number.isReadable_of_short (by decide) (by decide)
  refine ⟨t, hbuilt, hsize, ?_⟩
  refine (catalog_runs_without_errors ⟨catalog, provider, {}⟩ (fun r hr => hr) [t] ?_ husable).1
  intro u hu
  rw [List.mem_singleton.mp hu]
  exact Or.inl ⟨"src/App.cs", calls, hbuilt⟩

/-! ## Findings that cannot be listed -/

section SingleVisit

variable {e : Engine} {t : Tree} {reader : Reader} {n : Node} {found : Option Finding}
  (hvisits : visits (e.readers t) t.nodes.toList = [(reader, n)])
  (hfound : reader.rule.evaluate reader.context n = .ok found)

include hvisits hfound

/-- With one visit, what the rule finds there is all that is found. -/
theorem run_of_single_visit : e.run t = { findings := found.toList } := by
  rw [Engine.run, hvisits, foldl_visit_of_gives (by simpa using ⟨found, hfound, trivial⟩)]
  simp only [List.filterMap_cons, Reader.finding?_of_evaluate hfound]
  cases found <;> rfl

theorem scan_findings_of_single_visit : (e.scan [t]).findings = found.toList := by
  have hsort : sortFindings found.toList = found.toList := by
    cases found with
    | none => exact List.mergeSort_nil
    | some f => exact List.mergeSort_singleton _
  simp [Engine.scan, Engine.collect, Engine.analyze, Progress.sorted,
    run_of_single_visit hvisits hfound, hsort]

/-- What is found on the one visit is reported, if it can be shown. -/
theorem report_of_single_visit :
    e.report [t] =
      if found.all Finding.isShowable then .ok (e.scan [t]) else .error (.raised {}) := by
  have hanalysis : e.analysis t =
      if found.all Finding.isShowable then .ok (e.analyze t) else .error (.raised {}) := by
    rw [Engine.analysis, Engine.analyze, run_of_single_visit hvisits hfound]
    cases found with
    | none => rfl
    | some f => simp [Progress.listed]
  rw [Engine.report, List.mapM_cons, hanalysis]
  split
  · rfl
  · rfl

end SingleVisit

/-- A private method with lines at both ends of what can be read, and a block in it: the rule
counts its lines without failing, but the count cannot be written, and nothing is reported. -/
theorem no_report_of_huge_method :
    let big : Int := 10 ^ Number.digitLimit - 1
    let calls : List Builder.Call :=
      [.add none { kind := .method, modifiers := ["private"], span := ⟨-big, 1, big, 1⟩ },
       .add (some 1) { kind := .block }, .build]
    ∃ t, .built t ∈ ((Builder.start "src/App.cs").run calls).1 ∧
      Engine.report ⟨[largePrivateMethod], fun _ _ => .unset, {}⟩ [t] = .error (.raised {}) := by
  intro big calls
  let t : Tree := ⟨"src/App.cs",
    #[{ kind := .compilationUnit, index := 0, children := [1] }, longMethod 1,
      { kind := .block, index := 2, parent := some 1 }]⟩
  let e : Engine := ⟨[largePrivateMethod], fun _ _ => .unset, {}⟩
  -- the third reply is the tree
  have hbuilt : ((Builder.start "src/App.cs").run calls).1[2]? = some (.built t) := rfl
  have hvisits : visits (e.readers t) t.nodes.toList =
      [(e.reader t largePrivateMethod, longMethod 1)] := rfl
  have hthreshold : (e.context t largePrivateMethod).HasThreshold lineThreshold 50 :=
    hasThreshold_lines rfl _ _ t
  have hfound := evaluate_largePrivateMethod (n := longMethod 1) rfl rfl rfl hthreshold
    (lineCount_longMethod 1).1
  refine ⟨t, List.mem_of_getElem? hbuilt, ?_⟩
  rw [report_of_single_visit hvisits hfound]
  refine if_neg ?_
  simp [Descriptor.found, Finding.isShowable, Argument.isShowable, (lineCount_longMethod 1).2]

end SeamLint.Scan
