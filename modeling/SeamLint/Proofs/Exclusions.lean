import SeamLint.Proofs.CatalogTotality

set_option autoImplicit false

/-! # What exclusions do to a judgement

A rule asks at most one question about exclusions: whether the type, the method or the namespace
that it looks at is to be left alone (`Rule.exposure`). If the answer is yes it finds nothing, and
apart from the answer the lists of exclusions do not matter (`Guarded`). This holds of every rule
of the catalogue (`catalog_heeds`).

Two rules never ask, since they only look at a threshold. They find methods of excluded types as
well, and they are the only ones (`excludedTypes_honoured_iff`).
-/

namespace SeamLint.Rule

open SeamLint.Code SeamLint.Settings SeamLint.Surroundings

/-! ## Questions about exclusions -/

/-- What a rule looks at in a node and what can be excluded: a type, a method of that type, and a
namespace. -/
structure Exposure where
  typeName : Option String := none
  methodName : Option String := none
  namespaceName : Option String := none

/-- One of the things that the rule looks at is to be left alone. -/
def Exposure.isExcluded (x : Exposure) (s : RuleSettings) : Bool :=
  s.isTypeExcluded x.typeName || x.methodName.any (s.isMethodExcluded x.typeName) ||
    x.namespaceName.any s.isNamespaceExcluded

theorem isExcluded_type (typeName : Option String) (s : RuleSettings) :
    Exposure.isExcluded { typeName } s = s.isTypeExcluded typeName := by
  simp [Exposure.isExcluded]

/-- The symbol of a variable: its own, or else that of the field that declares it. -/
def variableSymbol? (t : Tree) (n : Node) : Option Symbol :=
  n.symbol.or
    (match parentOfKind t .field n with
      | .ok (some field) => field.symbol
      | _ => none)

/-- The type that a rule flags at a node: for a parameter the type that it takes, for a variable
the type that declares it, and for any other node the type that its symbol belongs to. -/
def flaggedType? (r : Rule) (t : Tree) (n : Node) : Option String :=
  match r.id with
  | "SEAM002" => n.symbol.bind Symbol.typeName
  | "SEAM013" => (variableSymbol? t n).bind Symbol.containingType
  | _ => n.symbol.bind Symbol.containingType

/-- What a rule looks at in a node. Rules that only look at a threshold look at nothing else. -/
def exposure (r : Rule) (t : Tree) (n : Node) : Exposure :=
  match r.id with
  | "SEAM001" =>
      { typeName := r.flaggedType? t n
        namespaceName := n.symbol.map Symbol.containingNamespace }
  | "SEAM004" =>
      { typeName := r.flaggedType? t n
        methodName := n.symbol.map Symbol.name
        namespaceName := n.symbol.map Symbol.containingNamespace }
  | "SEAM010" =>
      { typeName := r.flaggedType? t n
        methodName := n.symbol.map Symbol.name }
  | "SEAM011" | "SEAM020" => {}
  | _ => { typeName := r.flaggedType? t n }

/-! ## Guarded computations -/

/-- The settings differ in nothing but their exclusions. -/
structure SameButExclusions (s s' : RuleSettings) : Prop where
  ruleId : s.ruleId = s'.ruleId
  thresholds : s.thresholds = s'.thresholds

theorem SameButExclusions.threshold {s s' : RuleSettings} (h : SameButExclusions s s')
    (name : String) : s.threshold name = s'.threshold name := by
  simp only [RuleSettings.threshold, RuleSettings.thresholdOr, h.ruleId, h.thresholds]

/-- What comes of the settings is guarded by a question about exclusions: nothing is found if the
answer is yes, and nothing but the answer matters. -/
structure Guarded (excluded : RuleSettings → Bool)
    (outcome : RuleSettings → Except Stop (Option Finding)) : Prop where
  spares : ∀ s, excluded s = true → Yields (fun _ => False) (outcome s)
  congr : ∀ s s', SameButExclusions s s' → excluded s = excluded s' → outcome s = outcome s'

section Guarded

variable {excluded : RuleSettings → Bool} {α : Type}

theorem guarded_none : Guarded excluded (fun _ => pure none) :=
  ⟨fun _ _ => yields_none, fun _ _ _ _ => rfl⟩

theorem guarded_check {found : Except Stop (Option Finding)} :
    Guarded excluded (fun s => if excluded s = true then pure none else found) := by
  constructor
  · intro s h
    rw [if_pos h]
    exact yields_none
  · intro s s' _ h
    simp only [h]

theorem guarded_bind {x : Except Stop α} {next : RuleSettings → α → Except Stop (Option Finding)}
    (h : ∀ a, x = .ok a → Guarded excluded (fun s => next s a)) :
    Guarded excluded (fun s => x >>= next s) := by
  constructor
  · intro s hs
    exact yields_bind_of_eq fun a ha => (h a ha).spares s hs
  · intro s s' hsame heq
    cases x with
    | error fault => rfl
    | ok a => exact (h a rfl).congr s s' hsame heq

/-- A question that is never answered with yes need not be asked. -/
theorem guarded_of_never {outcome : RuleSettings → Except Stop (Option Finding)}
    (hno : ∀ s, excluded s = false)
    (hsame : ∀ s s', SameButExclusions s s' → outcome s = outcome s') :
    Guarded excluded outcome := by
  constructor
  · intro s h
    rw [hno s] at h
    cases h
  · intro s s' h _
    exact hsame s s' h

/-- The question may be put in other words. -/
theorem Guarded.of_eq {excluded' : RuleSettings → Bool}
    {outcome : RuleSettings → Except Stop (Option Finding)} (h : Guarded excluded outcome)
    (heq : ∀ s, excluded' s = excluded s) : Guarded excluded' outcome :=
  funext heq ▸ h

end Guarded

/-! ## Settings put into a context -/

/-- The context with other settings. -/
def Context.under (context : Context) (s : RuleSettings) : Context :=
  { context with settings := .ok s }

section Under

variable (context : Context) (s : RuleSettings) (n : Node)

theorem ok_bind {ε α β : Type} (a : α) (next : α → Except ε β) :
    (Except.ok a >>= next) = next a := rfl

@[simp] theorem tree_under : (context.under s).tree = context.tree := rfl

@[simp] theorem settings_under : (context.under s).settings = .ok s := rfl

@[simp] theorem tags_under : (context.under s).tags n = context.tags n := rfl

@[simp] theorem found_under (d : Descriptor) : d.found (context.under s) = d.found context := rfl

@[simp] theorem asksProvider_under (symbol : Symbol) :
    asksProvider (context.under s) n symbol = asksProvider context n symbol := rfl

@[simp] theorem hasLocatorReceiver_under :
    hasLocatorReceiver (context.under s) n = hasLocatorReceiver context n := rfl

@[simp] theorem startsProcess_under :
    startsProcess (context.under s) n = startsProcess context n := rfl

@[simp] theorem excludesTypeOf_under (symbol : Option Symbol) :
    (context.under s).excludesTypeOf symbol =
      .ok (s.isTypeExcluded (symbol.bind Symbol.containingType)) := by
  cases symbol <;> rfl

end Under

/-- What the rule makes of a node is guarded by the question whether what it looks at there is
excluded. -/
def Heeds (r : Rule) : Prop :=
  ∀ (context : Context) (n : Node), Guarded (r.exposure context.tree n).isExcluded
    (fun s => r.evaluate (context.under s) n)

/-! ## Rules that ask for the type of the symbol -/

/-- The rules that ask, after all their other tests of the symbol, whether its type is
excluded. -/
def ownerRules : List Rule :=
  [serviceLocator, clockRead, guidCreation, environmentVariable, staticProperty, ambientContext,
   fileSystemAccess, httpClientCreation, databaseAccess, processStart, sharedRandom]

theorem exposure_owner : ∀ r ∈ ownerRules, ∀ (t : Tree) (n : Node),
    r.exposure t n = { typeName := n.symbol.bind Symbol.containingType } := by
  simp only [ownerRules, List.forall_mem_cons]
  refine ⟨?_, ?_, ?_, ?_, ?_, ?_, ?_, ?_, ?_, ?_, ?_, List.forall_mem_nil _⟩
  all_goals
    intro t n
    rfl

theorem guarded_owner : ∀ r ∈ ownerRules, ∀ (context : Context) (n : Node),
    Guarded (fun s => s.isTypeExcluded (n.symbol.bind Symbol.containingType))
      (fun s => r.evaluate (context.under s) n) := by
  simp only [ownerRules, List.forall_mem_cons]
  refine ⟨?_, ?_, ?_, ?_, ?_, ?_, ?_, ?_, ?_, ?_, ?_, List.forall_mem_nil _⟩
  all_goals
    intro context n
    -- the rule takes the symbol apart, the question does not: both keep it by name
    generalize hsymbol : n.symbol = symbol?
    simp only [serviceLocator, clockRead, clockProperty, systemClock, guidCreation,
      environmentVariable, staticProperty, ambientContext, fileSystemAccess,
      httpClientCreation, databaseAccess, processStart, sharedRandom, hsymbol, tree_under,
      tags_under, found_under, asksProvider_under, hasLocatorReceiver_under,
      startsProcess_under, excludesTypeOf_under, ok_bind]
    repeat' first
      | exact guarded_none
      | exact guarded_check
      | refine guarded_bind fun _ _ => ?_
      | split

theorem heeds_owner : ∀ r ∈ ownerRules, r.Heeds := by
  intro r hr context n
  refine (guarded_owner r hr context n).of_eq fun s => ?_
  rw [exposure_owner r hr, isExcluded_type]

/-! ## Rules with questions of their own -/

theorem proper?_eq_some {text : Option String} {name : String} (h : proper? text = some name) :
    text = some name :=
  (Option.filter_eq_some_iff.mp h).1

theorem containingType_of_createdService? {symbol : Symbol} {typeName : String}
    (h : createdService? symbol = some typeName) : symbol.containingType = some typeName := by
  obtain ⟨name, hname, h⟩ := Option.bind_eq_some_iff.mp h
  obtain ⟨-, -, h⟩ := Option.bind_eq_some_iff.mp h
  rw [proper?_eq_some hname]
  exact h

theorem typeName_of_concreteClass? {symbol : Symbol} {typeName : String}
    (h : concreteClass? symbol = some typeName) : symbol.typeName = some typeName := by
  obtain ⟨-, -, h⟩ := Option.bind_eq_some_iff.mp h
  obtain ⟨name, hname, h⟩ := Option.bind_eq_some_iff.mp h
  obtain ⟨-, -, h⟩ := Option.bind_eq_some_iff.mp h
  rw [proper?_eq_some hname]
  exact h

theorem heeds_directInstantiation : directInstantiation.Heeds := by
  intro context n
  simp only [directInstantiation, tags_under, found_under, settings_under, ok_bind]
  split
  · next symbol hsymbol =>
      split
      · next typeName hname =>
          have htype : n.symbol.bind Symbol.containingType = some typeName := by
            rw [hsymbol]
            exact containingType_of_createdService? hname
          have hasked (s : RuleSettings) :
              (directInstantiation.exposure context.tree n).isExcluded s =
                (s.isTypeExcluded (some typeName) ||
                  s.isNamespaceExcluded symbol.containingNamespace) := by
            show (s.isTypeExcluded (n.symbol.bind Symbol.containingType) || false ||
              (n.symbol.map Symbol.containingNamespace).any s.isNamespaceExcluded) = _
            rw [htype, hsymbol, Bool.or_false]
            rfl
          refine guarded_bind fun tags _ => ?_
          split
          · exact guarded_none
          · exact guarded_check.of_eq hasked
      · exact guarded_none
  · exact guarded_none

theorem heeds_concreteParameter : concreteParameter.Heeds := by
  intro context n
  simp only [concreteParameter, tree_under, found_under, settings_under, ok_bind]
  refine guarded_bind fun owner _ => ?_
  split
  · split
    · next symbol hsymbol =>
        split
        · next typeName hname =>
            have hasked (s : RuleSettings) :
                (concreteParameter.exposure context.tree n).isExcluded s =
                  s.isTypeExcluded (some typeName) := by
              show Exposure.isExcluded { typeName := n.symbol.bind Symbol.typeName } s = _
              rw [isExcluded_type, hsymbol]
              exact congrArg s.isTypeExcluded (typeName_of_concreteClass? hname)
            exact guarded_check.of_eq hasked
        · exact guarded_none
    · exact guarded_none
  · exact guarded_none

theorem heeds_staticCall : staticCall.Heeds := by
  intro context n
  simp only [staticCall, tree_under, found_under, settings_under, ok_bind]
  split
  · next symbol hsymbol =>
      split
      · exact guarded_none
      · refine guarded_bind fun access _ => ?_
        split
        · split
          · next typeName hname =>
              have hasked (s : RuleSettings) :
                  (staticCall.exposure context.tree n).isExcluded s =
                    (s.isTypeExcluded (some typeName) ||
                      s.isMethodExcluded (some typeName) symbol.name ||
                      s.isNamespaceExcluded symbol.containingNamespace) := by
                have htype : n.symbol.bind Symbol.containingType = some typeName := by
                  rw [hsymbol]
                  exact proper?_eq_some hname
                show (s.isTypeExcluded (n.symbol.bind Symbol.containingType) ||
                  (n.symbol.map Symbol.name).any
                    (s.isMethodExcluded (n.symbol.bind Symbol.containingType)) ||
                  (n.symbol.map Symbol.containingNamespace).any s.isNamespaceExcluded) = _
                rw [htype, hsymbol]
                rfl
              split
              · exact guarded_none
              · exact guarded_check.of_eq hasked
          · exact guarded_none
        · exact guarded_none
  · exact guarded_none

theorem heeds_nonVirtualMethod : nonVirtualMethod.Heeds := by
  intro context n
  simp only [nonVirtualMethod, tree_under, found_under, settings_under, ok_bind]
  split
  · exact guarded_none
  · split
    · next symbol hsymbol =>
        have hasked (s : RuleSettings) :
            (nonVirtualMethod.exposure context.tree n).isExcluded s =
              (s.isTypeExcluded symbol.containingType ||
                s.isMethodExcluded symbol.containingType symbol.name) := by
          show (s.isTypeExcluded (n.symbol.bind Symbol.containingType) ||
            (n.symbol.map Symbol.name).any
              (s.isMethodExcluded (n.symbol.bind Symbol.containingType)) || false) = _
          rw [hsymbol, Bool.or_false]
          rfl
        repeat' first
          | exact guarded_none
          | exact guarded_check.of_eq hasked
          | refine guarded_bind fun _ _ => ?_
          | split
    · exact guarded_none

/-- Without a proper name no type is excluded. -/
theorem isTypeExcluded_of_proper?_eq_none {typeName : Option String} (s : RuleSettings)
    (h : proper? typeName = none) : s.isTypeExcluded typeName = false := by
  cases typeName with
  | none => rfl
  | some name =>
      have hempty : name = "" := by simpa [proper?] using h
      rw [hempty]
      rfl

theorem heeds_staticMutableField : staticMutableField.Heeds := by
  intro context n
  show Guarded
    (Exposure.isExcluded
      { typeName := (variableSymbol? context.tree n).bind Symbol.containingType })
    (fun s => staticMutableField.evaluate (context.under s) n)
  simp only [staticMutableField, tree_under, tags_under, found_under, settings_under, ok_bind]
  refine guarded_bind fun field? hfield => ?_
  split
  · next field =>
      have hfound : parentOfKind context.tree .field n = .ok (some field) :=
        eq_ok_of_mapError hfield
      have hvariable : variableSymbol? context.tree n = n.symbol.or field.symbol := by
        unfold variableSymbol?
        rw [hfound]
      rw [hvariable]
      split
      · exact guarded_none
      · split
        · next symbol hsymbol =>
            have hasked (s : RuleSettings) :
                Exposure.isExcluded
                    { typeName := (n.symbol.or field.symbol).bind Symbol.containingType } s =
                  s.isTypeExcluded symbol.containingType := by
              rw [isExcluded_type, hsymbol]
              rfl
            split
            · split
              · exact guarded_none
              · refine guarded_bind fun tags _ => ?_
                split
                · exact guarded_none
                · split
                  · next owner howner =>
                      refine guarded_check.of_eq fun s => ?_
                      rw [hasked s, proper?_eq_some howner]
                  · next hnone =>
                      have howner : proper? symbol.containingType = none :=
                        Option.eq_none_iff_forall_ne_some.mpr hnone
                      refine guarded_of_never (fun s => ?_) fun s s' _ => rfl
                      rw [hasked s, isTypeExcluded_of_proper?_eq_none s howner]
            · exact guarded_none
        · exact guarded_none
  · exact guarded_none

/-! ## Rules that only look at a threshold -/

theorem heeds_of_thresholds : ∀ r ∈ [largePrivateMethod, highComplexity], r.Heeds := by
  simp only [List.forall_mem_cons]
  refine ⟨?_, ?_, List.forall_mem_nil _⟩
  all_goals
    intro context n
    -- they look at nothing that could be excluded
    refine guarded_of_never (fun s => rfl) fun s s' hsame => ?_
    simp only [largePrivateMethod, highComplexity, tree_under, found_under, settings_under,
      ok_bind, hsame.threshold]

/-- **Every rule of the catalogue heeds exclusions** of what it looks at, and of nothing else. -/
theorem catalog_heeds : ∀ r ∈ catalog, r.Heeds := by
  have howner := heeds_owner
  have hthresholds := heeds_of_thresholds
  simp only [catalog, ownerRules, List.forall_mem_cons] at howner hthresholds ⊢
  obtain ⟨hlocator, hclock, hguid, henvironment, hproperty, hambient, hfile, hhttp, hdatabase,
    hprocess, hrandom, -⟩ := howner
  obtain ⟨hlines, hcomplexity, -⟩ := hthresholds
  exact ⟨heeds_directInstantiation, heeds_concreteParameter, hlocator, heeds_staticCall, hclock,
    hguid, henvironment, hproperty, heeds_nonVirtualMethod, hlines, heeds_staticMutableField,
    hambient, hfile, hhttp, hdatabase, hprocess, hrandom, hcomplexity, List.forall_mem_nil _⟩

/-! ## Excluded types -/

/-- All rules but those that only look at a threshold look at the type that they flag. -/
theorem typeName_exposure {r : Rule} (hlines : r.id ≠ "SEAM011") (hcomplexity : r.id ≠ "SEAM020")
    (t : Tree) (n : Node) : (r.exposure t n).typeName = r.flaggedType? t n := by
  unfold exposure
  split
  · rfl
  · rfl
  · rfl
  · next h => exact absurd h hlines
  · next h => exact absurd h hcomplexity
  · rfl

theorem isExcluded_of_mem {x : Exposure} {s : RuleSettings} {name : String}
    (htype : x.typeName = some name) (hname : name ≠ "")
    (hmem : "T:" ++ name ∈ s.excludedTypes) : x.isExcluded s = true := by
  have hexcluded : s.isTypeExcluded x.typeName = true := by
    simp [RuleSettings.isTypeExcluded, RuleSettings.isProper, htype, hname, hmem]
  simp [Exposure.isExcluded, hexcluded]

/-- Rules that look at nothing but a threshold judge the same under all exclusions. -/
theorem Heeds.congr_of_unexposed {r : Rule} (hr : r.Heeds)
    (hid : r.id = "SEAM011" ∨ r.id = "SEAM020") (context : Context) (n : Node)
    {s s' : RuleSettings} (h : SameButExclusions s s') :
    r.evaluate (context.under s) n = r.evaluate (context.under s') n := by
  have hexposure : r.exposure context.tree n = {} := by
    unfold exposure
    rcases hid with hid | hid
    · rw [hid]
      rfl
    · rw [hid]
      rfl
  refine (hr context n).congr s s' h ?_
  rw [hexposure]
  rfl

end SeamLint.Rule

namespace SeamLint.Scan

open SeamLint.Code SeamLint.Finding SeamLint.Rule SeamLint.Settings

/-- The context of a rule whose settings can be had. -/
theorem context_eq_under {e : Engine} {t : Tree} {r : Rule} {s : RuleSettings}
    (hs : (resolve e.provider (requestFor t r)).settings = .ok s) :
    e.context t r = (e.context t r).under s := by
  have hsettings : (e.context t r).settings = .ok s := by
    show (resolve e.provider (requestFor t r)).settings.mapError
      (fun fault => Code.Stop.raised (Rule.Fault.integer fault)) = .ok s
    rw [hs]
    rfl
  unfold Context.under
  rw [← hsettings]

/-- The rule is ready for the nodes of its kinds in well-formed trees. -/
theorem ready_context {e : Engine} {t : Tree} {r : Rule} {n : Node} {s : RuleSettings}
    (hs : (resolve e.provider (requestFor t r)).settings = .ok s) (ht : t.WellFormed)
    (hn : n ∈ t.nodes) (hkind : n.kind ∈ r.kinds) : r.Ready (e.context t r) n := by
  refine ⟨ht, hn, hkind, s, ?_, fun d hd => exists_threshold hs hd⟩
  rw [context_eq_under hs]
  rfl

/-- **The rule leaves excluded types alone**: where the type that it flags is listed for it, it
finds nothing. In a well-formed tree it says so, and in no other tree does it find anything. -/
def HonoursExcludedTypes (r : Rule) : Prop :=
  ∀ (e : Engine) (t : Tree) (n : Node) (s : RuleSettings) (name : String),
    n ∈ t.nodes → n.kind ∈ r.kinds →
    (resolve e.provider (requestFor t r)).settings = .ok s →
    r.flaggedType? t n = some name → name ≠ "" → "T:" ++ name ∈ s.excludedTypes →
      (∀ f, r.evaluate (e.context t r) n ≠ .ok (some f)) ∧
      (t.WellFormed → r.evaluate (e.context t r) n = .ok none)

theorem HonoursExcludedTypes.not_found {r : Rule} (hr : HonoursExcludedTypes r) {t : Tree}
    {n : Node} {provider : Provider} {s : RuleSettings} {name : String} {f : Finding}
    (hn : n ∈ t.nodes) (hkind : n.kind ∈ r.kinds)
    (hs : (resolve provider (requestFor t r)).settings = .ok s)
    (hflagged : r.flaggedType? t n = some name) (hname : name ≠ "")
    (hmem : "T:" ++ name ∈ s.excludedTypes) :
    r.evaluate ⟨t, {}, .ok s⟩ n ≠ .ok (some f) := by
  let e : Engine := ⟨[r], provider, {}⟩
  have hspared := (hr e t n s name hn hkind hs hflagged hname hmem).1 f
  rw [context_eq_under hs] at hspared
  exact hspared

theorem honours_of_exposed {r : Rule} (hr : r ∈ catalog) (hlines : r.id ≠ "SEAM011")
    (hcomplexity : r.id ≠ "SEAM020") : HonoursExcludedTypes r := by
  intro e t n s name hn hkind hs hflagged hname hmem
  have hexcluded : (r.exposure t n).isExcluded s = true := by
    refine isExcluded_of_mem ?_ hname hmem
    rw [typeName_exposure hlines hcomplexity, hflagged]
  have hspared : Yields (fun _ => False) (r.evaluate (e.context t r) n) := by
    rw [context_eq_under hs]
    exact (catalog_heeds r hr (e.context t r) n).spares s hexcluded
  refine ⟨fun f hf => hspared f hf, fun ht => ?_⟩
  obtain ⟨found, hfound, -⟩ := catalog_isTotal r hr _ n (ready_context hs ht hn hkind)
  cases found with
  | none => exact hfound
  | some f => exact absurd hfound (hspared f)

/-! ## Methods of excluded types that are found -/

/-- A private method of the type `App.Billing`, with a block. -/
def billingMethod : Node :=
  { kind := .method, name := some "Run", modifiers := ["private"],
    symbol := some { kind := "method", name := "Run", containingType := some "App.Billing" },
    span := ⟨1, 1, 9, 1⟩, index := 1, parent := some 0, children := [2] }

def billingTree : Tree :=
  ⟨"src/Billing.cs",
    #[{ kind := .compilationUnit, index := 0, children := [1] }, billingMethod,
      { kind := .block, index := 2, parent := some 1 }]⟩

/-- The rules with thresholds are told to leave `App.Billing` alone, and that every line and
every decision is too much. -/
def billingExcluded : Provider := fun _ key =>
  if thresholdKeys.contains key then .text "0"
  else if [optionKey "SEAM011" "excluded_types", optionKey "SEAM020" "excluded_types"].contains key
    then .text "T:App.Billing"
  else .unset

/-- The settings that come of it for a rule with one threshold. -/
def billingSettings (ruleId threshold : String) : RuleSettings :=
  { ruleId, excludedTypes := ["T:App.Billing"], excludedMethods := [], excludedNamespaces := [],
    thresholds := [(threshold, 0)] }

/-- Both rules with thresholds find the method, though its type is excluded for them. -/
theorem found_billingMethod : ∀ r ∈ [largePrivateMethod, highComplexity], ∃ s f,
    (resolve billingExcluded (requestFor billingTree r)).settings = .ok s ∧
      "T:App.Billing" ∈ s.excludedTypes ∧
      r.evaluate ⟨billingTree, {}, .ok s⟩ billingMethod = .ok (some f) := by
  have hlines : sortDefaults [(lineThreshold, 50)] = [(lineThreshold, 50)] :=
    List.mergeSort_singleton _
  have hcomplexity : sortDefaults [(complexityThreshold, 25)] = [(complexityThreshold, 25)] :=
    List.mergeSort_singleton _
  have hscore : Measure.complexityAt billingTree billingMethod = .ok 1 :=
    Measure.complexityAt_of_complexityTo 2 rfl rfl
  simp only [List.forall_mem_cons]
  refine ⟨⟨billingSettings "SEAM011" lineThreshold, _, ?_, List.mem_singleton.mpr rfl, rfl⟩,
    ⟨billingSettings "SEAM020" complexityThreshold, _, ?_, List.mem_singleton.mpr rfl,
      evaluate_highComplexity rfl rfl ⟨_, rfl, rfl⟩ hscore rfl (by decide)⟩,
    List.forall_mem_nil _⟩
  · simp only [resolve, resolveWith, requestFor, Request.normal, largePrivateMethod, hlines]
    rfl
  · simp only [resolve, resolveWith, requestFor, Request.normal, highComplexity, hcomplexity]
    rfl

/-! A static field of the type App.Billing, whose declarator has no symbol of its own. -/

/-- How the tree with the field is built. -/
def cacheCalls : List Builder.Call :=
  [.add none { kind := .field, modifiers := ["static"],
               symbol := some { name := "cache", containingType := some "App.Billing",
                                typeName := some "App.Cache" } },
   .add (some 1) { kind := .variableDeclarator, name := some "cache" }, .build]

/-- The declarator of the field. -/
def cacheVariable : Node :=
  { kind := .variableDeclarator, name := some "cache", index := 2, parent := some 1 }

/-- The tree with the field. -/
def cacheTree : Tree :=
  ⟨"src/Billing.cs",
    #[{ kind := .compilationUnit, index := 0, children := [1] },
      { kind := .field, modifiers := ["static"],
        symbol := some { name := "cache", containingType := some "App.Billing",
                         typeName := some "App.Cache" },
        index := 1, parent := some 0, children := [2] },
      cacheVariable]⟩

theorem built_cacheTree :
    .built cacheTree ∈ ((Builder.start "src/Billing.cs").run cacheCalls).1 :=
  List.mem_of_getElem? (i := 2) rfl

theorem staticMutableField_mem_catalog : staticMutableField ∈ catalog := by simp [catalog]

theorem isMade_cacheTree : IsMade cacheTree := Or.inl ⟨_, _, built_cacheTree⟩

/-- What the rule for static fields finds in the tree is what it says about the declarator. -/
theorem scan_cacheTree {provider : Provider} {s : RuleSettings} {found : Option Finding}
    (hs : (resolve provider (requestFor cacheTree staticMutableField)).settings = .ok s)
    (hfound : staticMutableField.evaluate ⟨cacheTree, {}, .ok s⟩ cacheVariable = .ok found) :
    (Engine.scan ⟨[staticMutableField], provider, {}⟩ [cacheTree]).findings = found.toList := by
  refine scan_findings_of_single_visit (n := cacheVariable) rfl ?_
  rw [← hfound]
  exact congrArg (staticMutableField.evaluate · cacheVariable) (context_eq_under hs)

/-- Without options nothing is excluded for the rule. -/
theorem settings_unset_cacheTree :
    (resolve (fun _ _ => .unset) (requestFor cacheTree staticMutableField)).settings =
      .ok { ruleId := "SEAM013" } := by
  have hsort : sortDefaults [] = [] := List.mergeSort_nil
  simp only [resolve, resolveWith, requestFor, Request.normal, staticMutableField, hsort]
  rfl

theorem not_honours_of_threshold : ∀ r ∈ [largePrivateMethod, highComplexity],
    ¬HonoursExcludedTypes r := by
  intro r hr hhonours
  have hnode : billingMethod ∈ billingTree.nodes := Array.mem_of_getElem? (i := 1) rfl
  have hkind : billingMethod.kind ∈ r.kinds := by
    have hkinds : ∀ r ∈ [largePrivateMethod, highComplexity], Kind.method ∈ r.kinds := by decide
    exact hkinds r hr
  have hflagged : r.flaggedType? billingTree billingMethod = some "App.Billing" := by
    have hall : ∀ r ∈ [largePrivateMethod, highComplexity],
        r.flaggedType? billingTree billingMethod = some "App.Billing" := by decide
    exact hall r hr
  obtain ⟨s, f, hs, hmem, hfound⟩ := found_billingMethod r hr
  exact hhonours.not_found hnode hkind hs hflagged (by decide) hmem hfound

/-- **Excluded types are honoured by all rules but two.** A rule of the catalogue leaves the types
alone that are excluded for it unless it is one of the two that measure methods, and those judge
every node as if nothing were excluded. -/
theorem excludedTypes_honoured_iff {r : Rule} (hr : r ∈ catalog) :
    (HonoursExcludedTypes r ↔ r.id ≠ "SEAM011" ∧ r.id ≠ "SEAM020") ∧
    (r.id = "SEAM011" ∨ r.id = "SEAM020" →
      ∀ (context : Context) (n : Node) (s s' : RuleSettings), SameButExclusions s s' →
        r.evaluate (context.under s) n = r.evaluate (context.under s') n) := by
  have hmember : ∀ q ∈ [largePrivateMethod, highComplexity], q ∈ catalog := by
    intro q hq
    simp only [List.mem_cons, List.not_mem_nil, or_false] at hq
    rcases hq with rfl | rfl
    · simp [catalog]
    · simp [catalog]
  -- a rule with one of the two ids is one of the two rules
  have hnot (q : Rule) (hq : q ∈ [largePrivateMethod, highComplexity]) (hid : r.id = q.id) :
      ¬HonoursExcludedTypes r := by
    rw [eq_of_id_eq hr (hmember q hq) hid]
    exact not_honours_of_threshold q hq
  refine ⟨⟨fun hhonours => ⟨fun hid => ?_, fun hid => ?_⟩, fun hid => ?_⟩, fun hid => ?_⟩
  · exact hnot largePrivateMethod (by simp) hid hhonours
  · exact hnot highComplexity (by simp) hid hhonours
  · exact honours_of_exposed hr hid.1 hid.2
  · intro context n s s' hsame
    exact (catalog_heeds r hr).congr_of_unexposed hid context n hsame

/-- A static field whose declarator has no symbol: the type of the symbol of the field counts. It
is found, and no longer found once that type is excluded. -/
theorem excludedTypes_honoured_iff_field :
    let calls : List Builder.Call :=
      [.add none { kind := .field, modifiers := ["static"],
                   symbol := some { name := "cache", containingType := some "App.Billing",
                                    typeName := some "App.Cache" } },
       .add (some 1) { kind := .variableDeclarator, name := some "cache" }, .build]
    let free : Engine := ⟨catalog, fun _ _ => .unset, {}⟩
    let excluded : Engine := ⟨catalog, fun _ _ => .text "N:App, T:App.Billing;", {}⟩
    ∃ t n, .built t ∈ ((Builder.start "src/Billing.cs").run calls).1 ∧ n ∈ t.nodes ∧
      (∃ f, staticMutableField.evaluate (free.context t staticMutableField) n = .ok (some f)) ∧
      staticMutableField.evaluate (excluded.context t staticMutableField) n = .ok none := by
  intro calls free excluded
  have hnode : cacheVariable ∈ cacheTree.nodes := Array.mem_of_getElem? (i := 2) rfl
  refine ⟨cacheTree, cacheVariable, built_cacheTree, hnode, ?_, ?_⟩
  · have hfound : ∃ f, staticMutableField.evaluate ⟨cacheTree, {}, .ok { ruleId := "SEAM013" }⟩
        cacheVariable = .ok (some f) := ⟨_, rfl⟩
    obtain ⟨f, hf⟩ := hfound
    refine ⟨f, ?_⟩
    rw [context_eq_under settings_unset_cacheTree]
    exact hf
  · have hsort : sortDefaults [] = [] := List.mergeSort_nil
    have hexcluded : ∃ s, (resolve excluded.provider
        (requestFor cacheTree staticMutableField)).settings = .ok s ∧
          "T:App.Billing" ∈ s.excludedTypes := by
      simp only [resolve, resolveWith, requestFor, Request.normal, staticMutableField, hsort]
      exact ⟨_, rfl, List.mem_of_getElem? (i := 1) rfl⟩
    obtain ⟨s, hs, hmem⟩ := hexcluded
    have hhonours :=
      (excludedTypes_honoured_iff staticMutableField_mem_catalog).1.mpr ⟨by decide, by decide⟩
    exact (hhonours excluded cacheTree cacheVariable s "App.Billing" hnode
      (List.mem_singleton.mpr rfl) hs rfl (by decide) hmem).2 (wellFormed_of_isMade isMade_cacheTree)

/-- **Not every rule honours excluded types.** -/
theorem excluded_types_found : ¬∀ r ∈ catalog, HonoursExcludedTypes r := by
  intro h
  refine not_honours_of_threshold highComplexity (by simp) (h highComplexity ?_)
  simp [catalog]

end SeamLint.Scan
