import SeamLint.Proofs.OptionLayers
import SeamLint.Scan.Config

set_option autoImplicit false

/-! # Which settings can be used

Every setting may have any shape. `Config.ofValue` refuses some settings as invalid, breaks down on
others because they have a shape that cannot be taken apart or hold an integer that cannot be shown,
and accepts the rest. The engine of an accepted configuration breaks down in turn on settings that
nothing has looked at before. Here the shapes that a setting needs are predicates of its value, and
the outcome of both steps is stated in their terms (`faults_of_settings`). Of two wrong settings the
first counts, in the order in which they are looked at, so a setting does harm only if all that
comes before it is in order (`Config.Misshapen`).
-/

namespace SeamLint.Data

/-! ## Shapes -/

/-- Only the text itself names the field that the text names. -/
theorem same_text {key : Key} {name : String} :
    key.same (.text name) = true ↔ key = .text name := by
  cases key with
  | text s => simp [Key.same]
  | _ => simp [Key.same, Key.integer?]

theorem mem_of_find?_eq_some {fields : Fields} {name : String} {v : Value}
    (h : fields.find? (.text name) = some v) : (.text name, v) ∈ fields := by
  induction fields with
  | nil => cases h
  | cons entry rest ih =>
    obtain ⟨key, w⟩ := entry
    unfold Fields.find? at h
    split at h
    case isTrue hsame =>
      cases h
      rw [same_text.mp hsame]
      exact List.mem_cons_self
    case isFalse => exact List.mem_cons_of_mem _ (ih h)

/-- An object, or a value that does not count as given. -/
def Value.isGroup (v : Value) : Bool := !v.isGiven || v.shape == .object

/-- Neither a list nor an object: the value can be a key. -/
def Value.isScalar (v : Value) : Bool := v.shape != .list && v.shape != .object

/-- Two elements, the first of which can be a key. -/
def Value.isPair (v : Value) : Bool :=
  match v.elements with
  | .ok [k, _] => k.isScalar
  | _ => false

/-- A value with elements that are all of a kind, or one that does not count as given. -/
def Value.isListOf (kind : Value → Bool) (v : Value) : Bool :=
  !v.isGiven ||
    match v.elements with
    | .ok items => items.all kind
    | .error _ => false

/-- An object, or pairs that make one. -/
def Value.isTable (v : Value) : Bool := v.shape == .object || v.isListOf Value.isPair

/-- A group whose fields can all be written. -/
def Value.isOptions (v : Value) : Bool :=
  v.isGroup &&
    match v with
    | .object fields => fields.all Settings.isWritableField
    | _ => true

/-- An object that has options, and whose pattern can be shown. -/
def Value.isSection (v : Value) : Bool :=
  v.shape == .object && ((v.get? "options").getD .null).isOptions &&
    ((v.get? "files").getD (.text Settings.defaultPattern)).isShowable

/-- A number without end. -/
def Value.isInfinite : Value → Bool
  | .real x =>
      match Number.Binary.ofFloat x with
      | .infinite _ => true
      | _ => false
  | _ => false

end SeamLint.Data

namespace SeamLint.Scan

open SeamLint.Data SeamLint.Finding SeamLint.Rule SeamLint.Settings

/-! ## Attempts

An attempt succeeds, or it breaks down on a shape, or something was found to be invalid. -/

/-- The attempt has a result. -/
def Succeeds {ε α : Type} (x : Except ε α) : Prop := ∃ a, x = .ok a

/-- The attempt came upon a value that cannot be taken apart or has no text. -/
def BreaksDown {α : Type} (x : Except ConfigFault α) : Prop := ∃ fault, x = .error (.access fault)

section Attempts

variable {ε α β : Type}

theorem succeeds_ok (a : α) : Succeeds (.ok a : Except ε α) := ⟨a, rfl⟩

theorem not_succeeds_error (fault : ε) : ¬Succeeds (.error fault : Except ε α) := by
  rintro ⟨a, ha⟩
  cases ha

theorem bind_eq_ok {x : Except ε α} {next : α → Except ε β} {b : β} :
    x >>= next = .ok b ↔ ∃ a, x = .ok a ∧ next a = .ok b := by
  cases x with
  | error fault =>
    constructor
    · intro h
      cases h
    · rintro ⟨a, ha, -⟩
      cases ha
  | ok a =>
    constructor
    · intro h
      exact ⟨a, rfl, h⟩
    · rintro ⟨a', ha, h⟩
      cases ha
      exact h

theorem succeeds_bind {x : Except ε α} {next : α → Except ε β} :
    Succeeds (x >>= next) ↔ ∃ a, x = .ok a ∧ Succeeds (next a) := by
  constructor
  · rintro ⟨b, hb⟩
    obtain ⟨a, ha, hnext⟩ := bind_eq_ok.mp hb
    exact ⟨a, ha, b, hnext⟩
  · rintro ⟨a, ha, b, hb⟩
    exact ⟨b, bind_eq_ok.mpr ⟨a, ha, hb⟩⟩

theorem succeeds_mapM {next : α → Except ε β} {as : List α} :
    Succeeds (as.mapM next) ↔ ∀ a ∈ as, Succeeds (next a) := by
  induction as with
  | nil => exact ⟨fun _ a ha => absurd ha List.not_mem_nil, fun _ => succeeds_ok []⟩
  | cons a as ih =>
    rw [List.mapM_cons, List.forall_mem_cons, ← ih, succeeds_bind]
    constructor
    · rintro ⟨b, hb, hrest⟩
      obtain ⟨bs, hbs, -⟩ := succeeds_bind.mp hrest
      exact ⟨⟨b, hb⟩, bs, hbs⟩
    · rintro ⟨⟨b, hb⟩, bs, hbs⟩
      exact ⟨b, hb, succeeds_bind.mpr ⟨bs, hbs, succeeds_ok _⟩⟩

theorem breaksDown_bind {x : Except ConfigFault α} {next : α → Except ConfigFault β} :
    BreaksDown (x >>= next) ↔ BreaksDown x ∨ ∃ a, x = .ok a ∧ BreaksDown (next a) := by
  cases x with
  | error fault =>
    constructor
    · rintro ⟨access, h⟩
      exact Or.inl ⟨access, congrArg Except.error (Except.error.inj h)⟩
    · rintro (⟨access, h⟩ | ⟨a, ha, -⟩)
      · exact ⟨access, congrArg Except.error (Except.error.inj h)⟩
      · cases ha
  | ok a =>
    constructor
    · intro h
      exact Or.inr ⟨a, rfl, h⟩
    · rintro (⟨access, h⟩ | ⟨a', ha, h⟩)
      · cases h
      · cases ha
        exact h

theorem not_breaksDown_ok (a : α) : ¬BreaksDown (.ok a) := by
  rintro ⟨fault, h⟩
  cases h

theorem not_breaksDown_invalid (cause : Invalid) :
    ¬BreaksDown (.error (.invalid cause) : Except ConfigFault α) := by
  rintro ⟨fault, h⟩
  cases h

theorem isInvalid_iff {x : Except ConfigFault α} :
    (∃ cause, x = .error (.invalid cause)) ↔ ¬BreaksDown x ∧ ¬Succeeds x := by
  cases x with
  | ok a => exact ⟨nofun, fun h => absurd (succeeds_ok a) h.2⟩
  | error fault =>
    cases fault with
    | invalid cause =>
      exact ⟨fun _ => ⟨not_breaksDown_invalid cause, not_succeeds_error _⟩, fun _ => ⟨cause, rfl⟩⟩
    | access fault => exact ⟨nofun, fun h => absurd ⟨fault, rfl⟩ h.1⟩

/-- Attempts break down at the first that does not succeed, if that one breaks down. -/
theorem breaksDown_mapM {next : α → Except ConfigFault β} {as : List α} :
    BreaksDown (as.mapM next) ↔ ∃ before a after, as = before ++ a :: after ∧
      (∀ b ∈ before, Succeeds (next b)) ∧ BreaksDown (next a) := by
  induction as with
  | nil =>
    refine iff_of_false (not_breaksDown_ok []) ?_
    rintro ⟨before, a, after, heq, -⟩
    simp at heq
  | cons a as ih =>
    rw [List.mapM_cons, breaksDown_bind]
    constructor
    · rintro (ha | ⟨b, hb, hrest⟩)
      · exact ⟨[], a, as, rfl, List.forall_mem_nil _, ha⟩
      · rcases breaksDown_bind.mp hrest with has | ⟨bs, -, hpure⟩
        · obtain ⟨before, a', after, rfl, hbefore, ha'⟩ := ih.mp has
          exact ⟨a :: before, a', after, rfl, List.forall_mem_cons.mpr ⟨⟨b, hb⟩, hbefore⟩, ha'⟩
        · exact absurd hpure (not_breaksDown_ok _)
    · rintro ⟨before, a', after, heq, hbefore, ha'⟩
      cases before with
      | nil =>
        obtain ⟨rfl, rfl⟩ := List.cons.inj heq
        exact Or.inl ha'
      | cons b before =>
        obtain ⟨rfl, rfl⟩ := List.cons.inj heq
        obtain ⟨⟨c, hc⟩, hbefore⟩ := List.forall_mem_cons.mp hbefore
        exact Or.inr ⟨c, hc,
          breaksDown_bind.mpr (Or.inl (ih.mpr ⟨before, a', after, rfl, hbefore, ha'⟩))⟩

/-- An attempt to take a value apart fails in one way only. -/
theorem breaksDown_lift {x : Except AccessFault α} :
    BreaksDown (x : Except ConfigFault α) ↔ ¬Succeeds x := by
  cases x with
  | error fault => exact ⟨fun _ => not_succeeds_error fault, fun _ => ⟨fault, rfl⟩⟩
  | ok a => exact ⟨fun h => absurd h (not_breaksDown_ok a), fun h => absurd (succeeds_ok a) h⟩

theorem lift_eq_ok {x : Except AccessFault α} {a : α} :
    (x : Except ConfigFault α) = .ok a ↔ x = .ok a := by
  cases x with
  | error fault => exact ⟨nofun, nofun⟩
  | ok b =>
    constructor
    · intro h
      exact congrArg Except.ok (Except.ok.inj h)
    · intro h
      rw [h]
      rfl

end Attempts

/-! ## Taking values apart -/

section Values

theorem lookUp_eq_ok {v : Value} {name : String} {found : Option Value} :
    v.lookUp name = .ok found ↔ v.shape = .object ∧ found = v.get? name := by
  cases v with
  | object fields => simp [Value.lookUp, Value.shape, Value.get?, eq_comm]
  | _ => simp [Value.lookUp, Value.shape]

theorem shape_givenOr_noFields (v : Value) :
    (givenOr v noFields).shape = .object ↔ v.isGroup = true := by
  unfold givenOr Value.isGroup
  by_cases hgiven : v.isGiven = true
  · simp [hgiven]
  · simp [hgiven, noFields, Value.shape]

/-- What is not given counts as an empty list. -/
theorem isListOf_iff {kind : Value → Bool} {v : Value} :
    v.isListOf kind = true ↔
      ∃ items, (givenOr v (.list [])).elements = .ok items ∧ ∀ item ∈ items, kind item = true := by
  unfold givenOr Value.isListOf
  by_cases hgiven : v.isGiven = true
  · cases helements : v.elements with
    | error fault => simp [hgiven, helements]
    | ok items => simp [hgiven, helements]
  · simp [hgiven, Value.elements]

theorem succeeds_toKey {v : Value} : Succeeds v.toKey ↔ v.isScalar = true := by
  cases v with
  | list items => exact ⟨fun h => absurd h (not_succeeds_error _), nofun⟩
  | object fields => exact ⟨fun h => absurd h (not_succeeds_error _), nofun⟩
  | _ => exact ⟨fun _ => rfl, fun _ => succeeds_ok _⟩

/-- One row after another has to be a pair; which keys and values came before does not matter. -/
theorem succeeds_pairsFrom {rows : List Value} {fields : Fields} {position : Nat} :
    Succeeds (pairsFrom fields position rows) ↔ ∀ row ∈ rows, row.isPair = true := by
  induction rows generalizing fields position with
  | nil => exact ⟨fun _ row hrow => absurd hrow List.not_mem_nil, fun _ => succeeds_ok _⟩
  | cons row rows ih =>
    rw [List.forall_mem_cons]
    unfold pairsFrom Value.isPair
    split
    case h_1 fault helements =>
      rw [helements]
      exact ⟨fun h => absurd h (not_succeeds_error _), nofun⟩
    case h_2 k value helements =>
      rw [helements, succeeds_bind, ← succeeds_toKey]
      constructor
      · rintro ⟨key, hkey, hrest⟩
        exact ⟨⟨key, hkey⟩, ih.mp hrest⟩
      · rintro ⟨⟨key, hkey⟩, hrest⟩
        exact ⟨key, hkey, ih.mpr hrest⟩
    -- a row with another number of parts is refused here, and it is no pair either
    case h_3 parts hparts helements =>
      rw [helements]
      refine ⟨fun h => absurd h (not_succeeds_error _), fun h => ?_⟩
      have hpair := h.1
      split at hpair
      case h_1 k value heq => exact absurd heq (fun heq => hparts k value (Except.ok.inj heq))
      case h_2 => cases hpair

theorem succeeds_asFields {v : Value} :
    Succeeds v.asFields ↔
      v.shape = .object ∨ ∃ rows, v.elements = .ok rows ∧ ∀ row ∈ rows, row.isPair = true := by
  cases v with
  | object fields => exact ⟨fun _ => Or.inl rfl, fun _ => succeeds_ok fields⟩
  | _ =>
    show Succeeds (_ >>= pairsFrom [] 0) ↔ _
    simp only [succeeds_bind, succeeds_pairsFrom, Value.shape, reduceCtorEq, false_or]

/-- What is not given counts as an empty table. -/
theorem succeeds_asFields_givenOr {v : Value} :
    Succeeds (givenOr v noFields).asFields ↔ v.isTable = true := by
  unfold givenOr Value.isTable Value.isListOf
  by_cases hgiven : v.isGiven = true
  · rw [if_pos hgiven, succeeds_asFields]
    cases helements : v.elements with
    | error fault => simp [hgiven]
    | ok rows => simp [hgiven]
  · rw [if_neg hgiven]
    simp [hgiven, succeeds_ok, noFields, Value.asFields]

theorem asText_eq_ok {v : Value} {text : String} :
    v.asText = .ok text ↔ v.isShowable = true ∧ v.shown = text := by
  unfold Value.asText
  cases v.isShowable <;> simp

theorem succeeds_asText {v : Value} : Succeeds v.asText ↔ v.isShowable = true := by
  simp only [Succeeds, asText_eq_ok, exists_and_left, exists_eq', and_true]

theorem succeeds_keyAsText {key : Key} : Succeeds key.asText ↔ key.isShowable = true := by
  unfold Key.asText
  cases key.isShowable with
  | false => exact iff_of_false (not_succeeds_error _) Bool.false_ne_true
  | true => exact iff_of_true (succeeds_ok _) rfl

/-! ## Severities and workers -/

/-- The value has a text, which is the name of a severity, in any case of its letters. -/
structure NamesSeverity (v : Value) : Prop where
  showable : v.isShowable = true
  named : ∃ s : Severity, s.name = Text.lower v.shown

theorem ofName?_eq_none {text : String} :
    Severity.ofName? text = none ↔ ∀ s : Severity, s.name ≠ text := by
  unfold Severity.ofName?
  rw [List.find?_eq_none]
  constructor
  · intro h s hs
    have hmem : s ∈ Severity.all := by cases s <;> decide
    exact h s hmem (beq_iff_eq.mpr hs)
  · intro h s _ hs
    exact h s (beq_iff_eq.mp hs)

theorem succeeds_readSeverity {v : Value} {place : String} :
    Succeeds (Config.readSeverity v place) ↔ NamesSeverity v := by
  unfold Config.readSeverity
  simp only [succeeds_bind, lift_eq_ok, asText_eq_ok]
  constructor
  · rintro ⟨text, ⟨hshowable, rfl⟩, hread⟩
    refine ⟨hshowable, ?_⟩
    cases hname : Severity.ofName? (Text.lower v.shown) with
    | some severity =>
      refine ⟨severity, ?_⟩
      simpa using List.find?_some hname
    | none =>
      rw [hname] at hread
      exact absurd hread (not_succeeds_error _)
  · rintro ⟨hshowable, s, hs⟩
    refine ⟨v.shown, ⟨hshowable, rfl⟩, ?_⟩
    cases hname : Severity.ofName? (Text.lower v.shown) with
    | some severity => exact succeeds_ok severity
    | none => exact absurd hs (ofName?_eq_none.mp hname s)

theorem breaksDown_readSeverity {v : Value} {place : String} :
    BreaksDown (Config.readSeverity v place) ↔ v.isShowable = false := by
  unfold Config.readSeverity
  rw [breaksDown_bind, breaksDown_lift, succeeds_asText, Bool.not_eq_true]
  -- a text that was shown names a severity or is refused
  refine or_iff_left ?_
  rintro ⟨text, -, hread⟩
  cases hname : Severity.ofName? (Text.lower text) with
  | some severity =>
    rw [hname] at hread
    exact not_breaksDown_ok severity hread
  | none =>
    rw [hname] at hread
    exact not_breaksDown_invalid _ hread

theorem breaksDown_readWorkers {v : Value} :
    BreaksDown (Config.readWorkers v) ↔ v.isInfinite = true := by
  cases v with
  | real x =>
    simp only [Config.readWorkers, Value.isInfinite]
    cases Number.Binary.ofFloat x with
    | infinite negative => exact ⟨fun _ => rfl, fun _ => ⟨_, rfl⟩⟩
    | nan => exact iff_of_false (not_breaksDown_invalid _) Bool.false_ne_true
    | finite negative mantissa exponent narrow =>
      exact iff_of_false (not_breaksDown_ok _) Bool.false_ne_true
  | text s =>
    simp only [Config.readWorkers]
    refine iff_of_false ?_ Bool.false_ne_true
    cases Number.readInteger s with
    | error fault => exact not_breaksDown_invalid _
    | ok n => exact not_breaksDown_ok n
  | bool b => exact iff_of_false (not_breaksDown_ok _) Bool.false_ne_true
  | int n => exact iff_of_false (not_breaksDown_ok _) Bool.false_ne_true
  | _ => exact iff_of_false (not_breaksDown_invalid _) Bool.false_ne_true

end Values

/-! ## Settings that are in order -/

namespace Config

/-- A setting at the top. -/
def top (c : Config) (name : String) : Value := Fields.getD c.data name

/-- A setting of a group. -/
def setting (c : Config) (group name : String) : Option Value := (c.group group).get? name

/-- The setting for the form of the report. -/
def formatSetting (c : Config) : Value := (c.setting "reporting" "format").getD (.text "text")

/-- The setting for the severity that makes a run fail. -/
def failOnSetting (c : Config) : Value :=
  (c.setting "reporting" "fail_on_severity").getD (.text Severity.warning.name)

/-- The setting for the severities of rules. -/
def severitySetting (c : Config) : Value := (c.setting "rules" "severities").getD .null

/-- The setting for the number of workers. -/
def workerSetting (c : Config) : Value :=
  (c.setting "engine" "max_workers").getD (.int defaultWorkers)

/-- The form of the report is known. -/
structure HasFormat (c : Config) : Prop where
  group : (c.top "reporting").isGroup = true
  showable : c.formatSetting.isShowable = true
  known : c.formatSetting.shown ∈ reportFormats

/-- The form of the report is known, and so is the severity that makes a run fail. -/
structure HasReporting (c : Config) : Prop extends c.HasFormat where
  failOn : NamesSeverity c.failOnSetting

/-- Under the key the table has nothing, or null, or a severity that can be told from its text. -/
def NamesUnder (table : Fields) (key : Key) : Prop :=
  ∀ v, table.find? key = some v → v = .null ∨ key.isShowable = true ∧ NamesSeverity v

/-- Under the key the table has a value, and the key or the value has no text. -/
def HidesUnder (table : Fields) (key : Key) : Prop :=
  ∃ v, table.find? key = some v ∧ v ≠ .null ∧ (key.isShowable = false ∨ v.isShowable = false)

/-- Every severity that the user gives is one, or null. -/
structure HasSeverities (c : Config) : Prop where
  group : (c.top "rules").isGroup = true
  table : c.severitySetting.isTable = true
  named : ∀ table entry, c.severityOverrides = .ok table → entry ∈ table → NamesUnder table entry.1

/-- There is at least one worker. -/
structure HasWorkers (c : Config) : Prop where
  group : (c.top "engine").isGroup = true
  positive : ∃ n, readWorkers c.workerSetting = .ok n ∧ 1 ≤ n

/-- Every setting that is looked at in advance is in order. -/
structure IsAccepted (c : Config) : Prop where
  reporting : c.HasReporting
  severities : c.HasSeverities
  sections : c.hasSectionList = true
  workers : c.HasWorkers

/-- A setting that is looked at in advance cannot be taken apart or shown, and all that is looked at
before it is in order. -/
inductive Misshapen (c : Config) : Prop
  | reporting (hgroup : (c.top "reporting").isGroup = false)
  | format (hgroup : (c.top "reporting").isGroup = true)
      (hformat : c.formatSetting.isShowable = false)
  | failOn (hformat : c.HasFormat) (hfailOn : c.failOnSetting.isShowable = false)
  | rules (hreporting : c.HasReporting) (hgroup : (c.top "rules").isGroup = false)
  | severities (hreporting : c.HasReporting) (hgroup : (c.top "rules").isGroup = true)
      (htable : c.severitySetting.isTable = false)
  | severity (hreporting : c.HasReporting) (before : Fields) (entry : Key × Value) (after : Fields)
      (htable : c.severityOverrides = .ok (before ++ entry :: after))
      (hbefore : ∀ e ∈ before, NamesUnder (before ++ entry :: after) e.1)
      (hentry : HidesUnder (before ++ entry :: after) entry.1)
  | engine (hreporting : c.HasReporting) (hseverities : c.HasSeverities)
      (hsections : c.hasSectionList = true) (hgroup : (c.top "engine").isGroup = false)
  | workers (hreporting : c.HasReporting) (hseverities : c.HasSeverities)
      (hsections : c.hasSectionList = true) (hgroup : (c.top "engine").isGroup = true)
      (hinfinite : c.workerSetting.isInfinite = true)

/-- Every setting that the engine is made from can be taken apart, and written where it becomes a
text. -/
structure IsUsable (c : Config) : Prop where
  rules : (c.top "rules").isGroup = true
  enabled : ((c.setting "rules" "enabled").getD .null).isListOf Value.isScalar = true
  disabled : ((c.setting "rules" "disabled").getD .null).isListOf Value.isScalar = true
  options : (c.top "options").isOptions = true
  sections : (c.top "sections").isListOf Value.isSection = true

section Settings

variable {c : Config}

theorem lookUp_group {group name : String} {found : Option Value} :
    (c.group group).lookUp name = .ok found ↔
      (c.top group).isGroup = true ∧ found = c.setting group name := by
  rw [lookUp_eq_ok]
  unfold Config.group
  rw [shape_givenOr_noFields]
  rfl

/-- What holds of a setting that was looked up. -/
theorem exists_lookUp_group {group name : String} {P : Option Value → Prop} :
    (∃ found, (c.group group).lookUp name = .ok found ∧ P found) ↔
      (c.top group).isGroup = true ∧ P (c.setting group name) := by
  constructor
  · rintro ⟨found, hfound, h⟩
    obtain ⟨hgroup, rfl⟩ := lookUp_group.mp hfound
    exact ⟨hgroup, h⟩
  · rintro ⟨hgroup, h⟩
    exact ⟨_, lookUp_group.mpr ⟨hgroup, rfl⟩, h⟩

theorem succeeds_lookUp_group {group name : String} :
    Succeeds ((c.group group).lookUp name) ↔ (c.top group).isGroup = true := by
  constructor
  · rintro ⟨found, hfound⟩
    exact (lookUp_group.mp hfound).1
  · intro hgroup
    exact ⟨_, lookUp_group.mpr ⟨hgroup, rfl⟩⟩

/-! ## The checks one by one -/

/-- Refuses a setting unless it is as it should be. -/
def demand (holds : Bool) (cause : Invalid) : Except ConfigFault Unit :=
  if holds then .ok () else .error (.invalid cause)

theorem succeeds_demand {holds : Bool} {cause : Invalid} :
    Succeeds (demand holds cause) ↔ holds = true := by
  cases holds with
  | false => exact ⟨fun h => absurd h (not_succeeds_error _), nofun⟩
  | true => exact ⟨fun _ => rfl, fun _ => succeeds_ok ()⟩

theorem not_breaksDown_demand {holds : Bool} {cause : Invalid} :
    ¬BreaksDown (demand holds cause) := by
  cases holds with
  | false => exact not_breaksDown_invalid cause
  | true => exact not_breaksDown_ok ()

/-- The check of the reporting. -/
def checkReporting (c : Config) : Except ConfigFault Severity := do
  let format ← c.reportFormat
  demand (reportFormats.contains format) (.unknownFormat format)
  c.failOn

/-- The check of the severities. -/
def checkSeverities (c : Config) : Except ConfigFault (List Severity) := do
  (← c.severityOverrides).mapM fun entry => c.keySeverity entry.1 .info

/-- The check of the workers. -/
def checkWorkers (c : Config) : Except ConfigFault Unit := do
  demand (1 ≤ (← c.maxWorkers)) .workersTooFew

theorem discard_bind {ε α β : Type} (x : Except ε α) (next : PUnit → Except ε β) :
    discard x >>= next = x >>= fun _ => next ⟨⟩ := by
  cases x with
  | error fault => rfl
  | ok a => rfl

/-- A loop over attempts whose results are dropped. -/
theorem forIn_eq_mapM {ε α β : Type} (as : List α) (next : α → Except ε β) :
    (forIn as PUnit.unit fun a _ => discard (next a) >>= fun _ =>
      pure (ForInStep.yield PUnit.unit)) = discard (as.mapM next) := by
  induction as with
  | nil => rfl
  | cons a as ih =>
    rw [List.forIn_cons, List.mapM_cons]
    cases next a with
    | error fault => rfl
    | ok b =>
      show (forIn as PUnit.unit _ : Except ε PUnit) = _
      rw [ih]
      cases as.mapM next with
      | error fault => rfl
      | ok bs => rfl

/-- The settings are checked in turn. -/
theorem validate_eq :
    c.validate = c.checkReporting >>= fun _ => c.checkSeverities >>= fun _ =>
      demand c.hasSectionList .sectionsNotList >>= fun _ => c.checkWorkers := by
  unfold validate checkReporting checkSeverities checkWorkers
  -- the loop goes first: it is only recognised with the results it drops
  simp only [forIn_eq_mapM]
  simp only [discard_bind, bind_assoc]
  refine bind_congr fun format => ?_
  cases reportFormats.contains format with
  | false => rfl
  | true =>
    refine bind_congr fun _ => bind_congr fun fields => bind_congr fun _ => ?_
    cases c.hasSectionList with
    | false => rfl
    | true =>
      refine bind_congr fun n => ?_
      by_cases hfew : n < 1
      · have hnot : ¬1 ≤ n := by omega
        simp only [hfew, hnot, demand]
        rfl
      · have hleast : 1 ≤ n := by omega
        simp only [hfew, hleast, demand]
        rfl

/-! ## What the checks come to -/

theorem succeeds_failOn :
    Succeeds c.failOn ↔ (c.top "reporting").isGroup = true ∧ NamesSeverity c.failOnSetting := by
  unfold failOn failOnSetting
  simp only [succeeds_bind, lift_eq_ok, exists_lookUp_group, succeeds_readSeverity]

theorem breaksDown_failOn :
    BreaksDown c.failOn ↔ (c.top "reporting").isGroup = false ∨
      (c.top "reporting").isGroup = true ∧ c.failOnSetting.isShowable = false := by
  unfold failOn failOnSetting
  simp only [breaksDown_bind, breaksDown_lift, succeeds_lookUp_group, Bool.not_eq_true, lift_eq_ok,
    exists_lookUp_group, breaksDown_readSeverity]

theorem reportFormat_eq_ok {text : String} :
    c.reportFormat = .ok text ↔ (c.top "reporting").isGroup = true ∧
      c.formatSetting.isShowable = true ∧ c.formatSetting.shown = text := by
  unfold reportFormat formatSetting
  simp only [bind_eq_ok, exists_lookUp_group, asText_eq_ok]

theorem succeeds_reportFormat :
    Succeeds c.reportFormat ↔ (c.top "reporting").isGroup = true ∧
      c.formatSetting.isShowable = true := by
  simp only [Succeeds, reportFormat_eq_ok, exists_and_left, exists_eq', and_true]

theorem succeeds_checkReporting : Succeeds c.checkReporting ↔ c.HasReporting := by
  unfold checkReporting
  rw [succeeds_bind]
  constructor
  · rintro ⟨format, hformat, hrest⟩
    obtain ⟨hgroup, hshowable, rfl⟩ := reportFormat_eq_ok.mp (lift_eq_ok.mp hformat)
    obtain ⟨_, hknown, hfail⟩ := succeeds_bind.mp hrest
    have hcontains := succeeds_demand.mp ⟨_, hknown⟩
    exact ⟨⟨hgroup, hshowable, List.contains_iff_mem.mp hcontains⟩, (succeeds_failOn.mp hfail).2⟩
  · rintro ⟨⟨hgroup, hshowable, hformat⟩, hfail⟩
    refine ⟨_, lift_eq_ok.mpr (reportFormat_eq_ok.mpr ⟨hgroup, hshowable, rfl⟩),
      succeeds_bind.mpr ?_⟩
    obtain ⟨_, hknown⟩ := succeeds_demand.mpr (List.contains_iff_mem.mpr hformat)
    exact ⟨_, hknown, succeeds_failOn.mpr ⟨hgroup, hfail⟩⟩

theorem breaksDown_checkReporting :
    BreaksDown c.checkReporting ↔ (c.top "reporting").isGroup = false ∨
      (c.top "reporting").isGroup = true ∧ c.formatSetting.isShowable = false ∨
      c.HasFormat ∧ c.failOnSetting.isShowable = false := by
  unfold checkReporting
  rw [breaksDown_bind, breaksDown_lift, succeeds_reportFormat]
  constructor
  · rintro (hnot | ⟨format, hformat, hrest⟩)
    · cases hgroup : (c.top "reporting").isGroup with
      | false => exact Or.inl rfl
      | true =>
        exact Or.inr (Or.inl ⟨rfl, Bool.eq_false_iff.mpr fun hformat => hnot ⟨hgroup, hformat⟩⟩)
    · obtain ⟨hgroup, hshowable, rfl⟩ := reportFormat_eq_ok.mp (lift_eq_ok.mp hformat)
      rcases breaksDown_bind.mp hrest with hdemand | ⟨_, hknown, hfail⟩
      · exact absurd hdemand not_breaksDown_demand
      · have hcontains := List.contains_iff_mem.mp (succeeds_demand.mp ⟨_, hknown⟩)
        -- the group is looked into twice, and the second look finds what the first did
        rcases breaksDown_failOn.mp hfail with hnone | ⟨-, hunshown⟩
        · rw [hgroup] at hnone
          cases hnone
        · exact Or.inr (Or.inr ⟨⟨hgroup, hshowable, hcontains⟩, hunshown⟩)
  · rintro (hgroup | ⟨-, hformat⟩ | ⟨⟨hgroup, hshowable, hknown⟩, hunshown⟩)
    · exact Or.inl fun h => Bool.eq_false_iff.mp hgroup h.1
    · exact Or.inl fun h => Bool.eq_false_iff.mp hformat h.2
    · refine Or.inr ⟨_, lift_eq_ok.mpr (reportFormat_eq_ok.mpr ⟨hgroup, hshowable, rfl⟩), ?_⟩
      obtain ⟨_, hdemand⟩ := succeeds_demand.mpr (List.contains_iff_mem.mpr hknown)
      exact breaksDown_bind.mpr
        (Or.inr ⟨_, hdemand, breaksDown_failOn.mpr (Or.inr ⟨hgroup, hunshown⟩)⟩)

theorem succeeds_severityOverrides :
    Succeeds c.severityOverrides ↔ (c.top "rules").isGroup = true ∧
      c.severitySetting.isTable = true := by
  unfold severityOverrides severitySetting
  simp only [succeeds_bind, exists_lookUp_group, succeeds_asFields_givenOr]

section Overrides

variable {fields : Fields} (hfields : c.severityOverrides = .ok fields)

include hfields

theorem keySeverity_eq (key : Key) (byDefault : Severity) :
    c.keySeverity key byDefault =
      match fields.find? key with
      | none | some .null => .ok byDefault
      | some v => (key.asText : Except ConfigFault String) >>= fun text =>
          readSeverity v ("rules.severities." ++ text) := by
  unfold keySeverity
  rw [hfields]
  rfl

theorem succeeds_keySeverity {key : Key} {byDefault : Severity} :
    Succeeds (c.keySeverity key byDefault) ↔ NamesUnder fields key := by
  unfold NamesUnder
  rw [keySeverity_eq hfields]
  split
  case h_1 hnone => simp [hnone, succeeds_ok]
  case h_2 hnull => simp [hnull, succeeds_ok]
  case h_3 v hne hfound =>
    simp only [succeeds_bind, lift_eq_ok, succeeds_readSeverity, exists_and_right]
    rw [← succeeds_keyAsText]
    constructor
    · rintro ⟨hkey, hnames⟩ w hw
      cases hfound.symm.trans hw
      exact Or.inr ⟨hkey, hnames⟩
    · intro h
      rcases h v hfound with hnull | hnames
      · exact absurd hnull hne
      · exact hnames

theorem breaksDown_keySeverity {key : Key} {byDefault : Severity} :
    BreaksDown (c.keySeverity key byDefault) ↔ HidesUnder fields key := by
  unfold HidesUnder
  rw [keySeverity_eq hfields]
  split
  case h_1 hnone => simp [hnone, not_breaksDown_ok]
  case h_2 hnull => simp [hnull, not_breaksDown_ok]
  case h_3 v hne hfound =>
    simp only [breaksDown_bind, breaksDown_lift, lift_eq_ok, breaksDown_readSeverity,
      succeeds_keyAsText, Bool.not_eq_true, exists_and_right]
    constructor
    · rintro (hkey | ⟨-, hv⟩)
      · exact ⟨v, hfound, hne, Or.inl hkey⟩
      · exact ⟨v, hfound, hne, Or.inr hv⟩
    · rintro ⟨w, hw, -, hhidden⟩
      cases hfound.symm.trans hw
      cases hkey : key.isShowable with
      | false => exact Or.inl rfl
      | true =>
        refine Or.inr ⟨succeeds_keyAsText.mpr hkey, ?_⟩
        exact hhidden.resolve_left (by simp [hkey])

end Overrides

theorem succeeds_checkSeverities : Succeeds c.checkSeverities ↔ c.HasSeverities := by
  unfold checkSeverities
  rw [succeeds_bind]
  constructor
  · rintro ⟨fields, hfields, hrest⟩
    have hfields := lift_eq_ok.mp hfields
    obtain ⟨hgroup, htable⟩ := succeeds_severityOverrides.mp ⟨fields, hfields⟩
    refine ⟨hgroup, htable, fun fields' entry hfields' hentry => ?_⟩
    cases hfields.symm.trans hfields'
    exact (succeeds_keySeverity hfields).mp (succeeds_mapM.mp hrest entry hentry)
  · rintro ⟨hgroup, htable, hnamed⟩
    obtain ⟨fields, hfields⟩ := succeeds_severityOverrides.mpr ⟨hgroup, htable⟩
    refine ⟨fields, lift_eq_ok.mpr hfields, succeeds_mapM.mpr fun entry hentry => ?_⟩
    exact (succeeds_keySeverity hfields).mpr (hnamed fields entry hfields hentry)

theorem breaksDown_checkSeverities :
    BreaksDown c.checkSeverities ↔ (c.top "rules").isGroup = false ∨
      (c.top "rules").isGroup = true ∧ c.severitySetting.isTable = false ∨
      ∃ before entry after, c.severityOverrides = .ok (before ++ entry :: after) ∧
        (∀ e ∈ before, NamesUnder (before ++ entry :: after) e.1) ∧
        HidesUnder (before ++ entry :: after) entry.1 := by
  unfold checkSeverities
  rw [breaksDown_bind, breaksDown_lift, succeeds_severityOverrides]
  constructor
  · rintro (hshape | ⟨fields, hfields, hrest⟩)
    · cases hgroup : (c.top "rules").isGroup with
      | false => exact Or.inl rfl
      | true =>
        exact Or.inr (Or.inl ⟨rfl, Bool.eq_false_iff.mpr fun htable => hshape ⟨hgroup, htable⟩⟩)
    -- once there is a table, its entries are looked at one by one
    · have hfields := lift_eq_ok.mp hfields
      obtain ⟨before, entry, after, rfl, hbefore, hentry⟩ := breaksDown_mapM.mp hrest
      refine Or.inr (Or.inr ⟨before, entry, after, hfields, fun e he => ?_, ?_⟩)
      · exact (succeeds_keySeverity hfields).mp (hbefore e he)
      · exact (breaksDown_keySeverity hfields).mp hentry
  · rintro (hgroup | ⟨-, htable⟩ | ⟨before, entry, after, hfields, hbefore, hentry⟩)
    · exact Or.inl fun h => Bool.eq_false_iff.mp hgroup h.1
    · exact Or.inl fun h => Bool.eq_false_iff.mp htable h.2
    · refine Or.inr ⟨_, lift_eq_ok.mpr hfields, breaksDown_mapM.mpr
        ⟨before, entry, after, rfl, fun e he => ?_, ?_⟩⟩
      · exact (succeeds_keySeverity hfields).mpr (hbefore e he)
      · exact (breaksDown_keySeverity hfields).mpr hentry

theorem maxWorkers_eq_ok {n : Int} :
    c.maxWorkers = .ok n ↔ (c.top "engine").isGroup = true ∧
      readWorkers c.workerSetting = .ok n := by
  unfold maxWorkers workerSetting
  simp only [bind_eq_ok, lift_eq_ok, exists_lookUp_group]

theorem succeeds_checkWorkers : Succeeds c.checkWorkers ↔ c.HasWorkers := by
  unfold checkWorkers
  simp only [succeeds_bind, maxWorkers_eq_ok, succeeds_demand, decide_eq_true_eq]
  constructor
  · rintro ⟨n, ⟨hgroup, hn⟩, hpositive⟩
    exact ⟨hgroup, n, hn, hpositive⟩
  · rintro ⟨hgroup, n, hn, hpositive⟩
    exact ⟨n, ⟨hgroup, hn⟩, hpositive⟩

theorem breaksDown_checkWorkers :
    BreaksDown c.checkWorkers ↔ (c.top "engine").isGroup = false ∨
      (c.top "engine").isGroup = true ∧
        c.workerSetting.isInfinite = true := by
  unfold checkWorkers maxWorkers workerSetting
  simp only [breaksDown_bind, breaksDown_lift, succeeds_lookUp_group, lift_eq_ok,
    exists_lookUp_group, breaksDown_readWorkers, not_breaksDown_demand, and_false, exists_false,
    or_false, Bool.not_eq_true]

/-! ## The outcome -/

/-- **The check passes if and only if every setting that it looks at is in order.** -/
theorem succeeds_validate : Succeeds c.validate ↔ c.IsAccepted := by
  rw [validate_eq]
  simp only [succeeds_bind]
  constructor
  · rintro ⟨_, hreporting, _, hseverities, _, hsections, hworkers⟩
    exact ⟨succeeds_checkReporting.mp ⟨_, hreporting⟩, succeeds_checkSeverities.mp ⟨_, hseverities⟩,
      succeeds_demand.mp ⟨_, hsections⟩, succeeds_checkWorkers.mp hworkers⟩
  · rintro ⟨hreporting, hseverities, hsections, hworkers⟩
    obtain ⟨_, hreporting⟩ := succeeds_checkReporting.mpr hreporting
    obtain ⟨_, hseverities⟩ := succeeds_checkSeverities.mpr hseverities
    obtain ⟨_, hsections⟩ := succeeds_demand.mpr hsections
    exact ⟨_, hreporting, _, hseverities, _, hsections, succeeds_checkWorkers.mpr hworkers⟩

/-- **The check breaks down on the first setting that is not in order**, if that is one of the wrong
shape. -/
theorem breaksDown_validate : BreaksDown c.validate ↔ c.Misshapen := by
  rw [validate_eq]
  simp only [breaksDown_bind, breaksDown_checkReporting, breaksDown_checkSeverities,
    breaksDown_checkWorkers, not_breaksDown_demand, false_or]
  constructor
  · rintro ((hgroup | ⟨hgroup, hformat⟩ | ⟨hformat, hfailOn⟩) | ⟨_, hreporting, hrest⟩)
    · exact .reporting hgroup
    · exact .format hgroup hformat
    · exact .failOn hformat hfailOn
    · have hreporting := succeeds_checkReporting.mp ⟨_, hreporting⟩
      rcases hrest with
        (hgroup | ⟨hgroup, htable⟩ | ⟨before, entry, after, htable, hbefore, hentry⟩) |
          ⟨_, hseverities, _, hsections, hworkers⟩
      · exact .rules hreporting hgroup
      · exact .severities hreporting hgroup htable
      · exact .severity hreporting before entry after htable hbefore hentry
      · have hseverities := succeeds_checkSeverities.mp ⟨_, hseverities⟩
        have hsections := succeeds_demand.mp ⟨_, hsections⟩
        rcases hworkers with hgroup | ⟨hgroup, hinfinite⟩
        · exact .engine hreporting hseverities hsections hgroup
        · exact .workers hreporting hseverities hsections hgroup hinfinite
  · intro h
    cases h with
    | reporting hgroup => exact Or.inl (Or.inl hgroup)
    | format hgroup hformat => exact Or.inl (Or.inr (Or.inl ⟨hgroup, hformat⟩))
    | failOn hformat hfailOn => exact Or.inl (Or.inr (Or.inr ⟨hformat, hfailOn⟩))
    | rules hreporting hgroup =>
      obtain ⟨_, hreporting⟩ := succeeds_checkReporting.mpr hreporting
      exact Or.inr ⟨_, hreporting, Or.inl (Or.inl hgroup)⟩
    | severities hreporting hgroup htable =>
      obtain ⟨_, hreporting⟩ := succeeds_checkReporting.mpr hreporting
      exact Or.inr ⟨_, hreporting, Or.inl (Or.inr (Or.inl ⟨hgroup, htable⟩))⟩
    | severity hreporting before entry after htable hbefore hentry =>
      obtain ⟨_, hreporting⟩ := succeeds_checkReporting.mpr hreporting
      exact Or.inr ⟨_, hreporting,
        Or.inl (Or.inr (Or.inr ⟨before, entry, after, htable, hbefore, hentry⟩))⟩
    | engine hreporting hseverities hsections hgroup =>
      obtain ⟨_, hreporting⟩ := succeeds_checkReporting.mpr hreporting
      obtain ⟨_, hseverities⟩ := succeeds_checkSeverities.mpr hseverities
      obtain ⟨_, hsections⟩ := succeeds_demand.mpr hsections
      exact Or.inr ⟨_, hreporting, Or.inr ⟨_, hseverities, _, hsections, Or.inl hgroup⟩⟩
    | workers hreporting hseverities hsections hgroup hinfinite =>
      obtain ⟨_, hreporting⟩ := succeeds_checkReporting.mpr hreporting
      obtain ⟨_, hseverities⟩ := succeeds_checkSeverities.mpr hseverities
      obtain ⟨_, hsections⟩ := succeeds_demand.mpr hsections
      exact Or.inr ⟨_, hreporting, Or.inr ⟨_, hseverities, _, hsections,
        Or.inr ⟨hgroup, hinfinite⟩⟩⟩

/-! ## The engine -/

theorem succeeds_idsOf {items : List Value} :
    Succeeds (idsOf (.list items)) ↔ ∀ item ∈ items, item.isScalar = true := by
  show Succeeds (items.mapM Value.toKey) ↔ _
  simp only [succeeds_mapM, succeeds_toKey]

theorem ruleList_eq_ok {name : String} {items : List Value} :
    c.ruleList name = .ok items ↔ (c.top "rules").isGroup = true ∧
      (givenOr ((c.setting "rules" name).getD .null) (.list [])).elements = .ok items := by
  unfold ruleList
  simp only [bind_eq_ok, exists_lookUp_group]

theorem succeeds_rules :
    Succeeds c.rules ↔ (c.top "rules").isGroup = true ∧
      ((c.setting "rules" "enabled").getD .null).isListOf Value.isScalar = true ∧
      ((c.setting "rules" "disabled").getD .null).isListOf Value.isScalar = true := by
  unfold Config.rules enabledRules disabledRules selectRules
  simp only [succeeds_bind, ruleList_eq_ok, isListOf_iff]
  constructor
  · rintro ⟨enabled, ⟨hgroup, henabled⟩, disabled, ⟨-, hdisabled⟩, on, hon, off, hoff, -⟩
    exact ⟨hgroup, ⟨enabled, henabled, succeeds_idsOf.mp ⟨on, hon⟩⟩,
      disabled, hdisabled, succeeds_idsOf.mp ⟨off, hoff⟩⟩
  · rintro ⟨hgroup, ⟨enabled, henabled, hon⟩, disabled, hdisabled, hoff⟩
    obtain ⟨on, hon⟩ := succeeds_idsOf.mpr hon
    obtain ⟨off, hoff⟩ := succeeds_idsOf.mpr hoff
    exact ⟨enabled, ⟨hgroup, henabled⟩, disabled, ⟨hgroup, hdisabled⟩, on, hon, off, hoff,
      succeeds_ok _⟩

theorem succeeds_entriesOf {fields : Fields} :
    Succeeds (entriesOf fields) ↔ fields.all isWritableField = true := by
  rw [entriesOf_eq]
  cases fields.all isWritableField with
  | false => exact iff_of_false (not_succeeds_error _) Bool.false_ne_true
  | true => exact iff_of_true (succeeds_ok _) rfl

theorem succeeds_entriesOfValue {v : Value} :
    Succeeds (entriesOfValue v) ↔ v.isOptions = true := by
  unfold Value.isOptions Value.isGroup
  cases v with
  | object fields =>
    rw [entriesOfValue_object, succeeds_entriesOf]
    simp [Value.shape]
  | _ =>
    unfold entriesOfValue
    split
    case isTrue hgiven =>
      refine iff_of_false ?_ (by simp [hgiven, Value.shape])
      rw [succeeds_bind]
      rintro ⟨fields, hfields, -⟩
      cases hfields
    case isFalse hgiven => exact iff_of_true (succeeds_ok _) (by simp [hgiven])

theorem succeeds_section {v : Value} : Succeeds (Section.ofValue v) ↔ v.isSection = true := by
  cases v with
  | object fields =>
    show _ ↔ (((Fields.get? fields "options").getD .null).isOptions &&
      ((Fields.get? fields "files").getD (.text defaultPattern)).isShowable) = true
    rw [section_ofValue_object, succeeds_bind, Bool.and_eq_true, ← succeeds_entriesOfValue,
      ← succeeds_asText]
    constructor
    · rintro ⟨entries, hentries, hrest⟩
      obtain ⟨pattern, hpattern, -⟩ := succeeds_bind.mp hrest
      exact ⟨⟨entries, hentries⟩, pattern, hpattern⟩
    · rintro ⟨⟨entries, hentries⟩, pattern, hpattern⟩
      exact ⟨entries, hentries, succeeds_bind.mpr ⟨pattern, hpattern, succeeds_ok _⟩⟩
  | _ => exact ⟨fun h => absurd h (not_succeeds_error _), nofun⟩

theorem elements_givenOr (v : Value) :
    (givenOr v (.list [])).elements = if v.isGiven then v.elements else .ok [] := by
  unfold givenOr
  split
  · rfl
  · rfl

theorem succeeds_options :
    Succeeds c.options ↔ (c.top "options").isOptions = true ∧
      (c.top "sections").isListOf Value.isSection = true := by
  unfold Config.options
  rw [options_ofValues, ← elements_givenOr, isListOf_iff, ← succeeds_entriesOfValue]
  simp only [succeeds_bind, ← succeeds_section]
  constructor
  · rintro ⟨entries, hentries, parts, hparts, sections, hsections, -⟩
    exact ⟨⟨entries, hentries⟩, parts, hparts, succeeds_mapM.mp ⟨sections, hsections⟩⟩
  · rintro ⟨⟨entries, hentries⟩, parts, hparts, hsections⟩
    obtain ⟨sections, hsections⟩ := succeeds_mapM.mpr hsections
    exact ⟨entries, hentries, parts, hparts, sections, hsections, succeeds_ok _⟩

/-- **The engine can be made if and only if its settings can be taken apart.** -/
theorem succeeds_engine : Succeeds c.engine ↔ c.IsUsable := by
  unfold Config.engine
  simp only [succeeds_bind]
  constructor
  · rintro ⟨rules, hrules, options, hoptions, -⟩
    obtain ⟨hgroup, henabled, hdisabled⟩ := succeeds_rules.mp ⟨rules, hrules⟩
    obtain ⟨hoptions, hsections⟩ := succeeds_options.mp ⟨options, hoptions⟩
    exact ⟨hgroup, henabled, hdisabled, hoptions, hsections⟩
  · rintro ⟨hgroup, henabled, hdisabled, hoptions, hsections⟩
    obtain ⟨rules, hrules⟩ := succeeds_rules.mpr ⟨hgroup, henabled, hdisabled⟩
    obtain ⟨options, hoptions⟩ := succeeds_options.mpr ⟨hoptions, hsections⟩
    exact ⟨rules, hrules, options, hoptions, succeeds_ok _⟩

end Settings

end Config

/-- **When settings are refused, when they break down, and when they make an engine.** The user's
own settings override the default ones. Making the configuration breaks down if and only if a
setting that is looked at in advance cannot be taken apart or holds an integer that cannot be shown,
and all that is looked at before it is in order. It succeeds if and only if all that is looked at is
in order, and in every other case the settings are refused as invalid. The engine can be made as
well if and only if what nothing has looked at can be taken apart and written: the lists of rules,
the options and the sections one by one. -/
theorem faults_of_settings (overrides : Fields) (source : Option String) :
    let c : Config := ⟨mergeFields defaultSettings overrides, source⟩
    ((∃ fault, Config.ofValue (.object overrides) source = .error (.access fault)) ↔ c.Misshapen) ∧
    ((∃ cause, Config.ofValue (.object overrides) source = .error (.invalid cause)) ↔
      ¬c.Misshapen ∧ ¬c.IsAccepted) ∧
    (∀ config, Config.ofValue (.object overrides) source = .ok config ↔ config = c ∧ c.IsAccepted) ∧
    ((∃ config e, Config.ofValue (.object overrides) source = .ok config ∧ config.engine = .ok e) ↔
      c.IsAccepted ∧ c.IsUsable) := by
  intro c
  have hofValue : Config.ofValue (.object overrides) source = c.validate >>= fun _ => .ok c := rfl
  have hbreaks : BreaksDown (Config.ofValue (.object overrides) source) ↔ c.Misshapen := by
    rw [hofValue, breaksDown_bind, Config.breaksDown_validate]
    exact or_iff_left fun ⟨_, _, h⟩ => not_breaksDown_ok c h
  have hok : ∀ config, Config.ofValue (.object overrides) source = .ok config ↔
      config = c ∧ c.IsAccepted := by
    intro config
    rw [hofValue, bind_eq_ok, ← Config.succeeds_validate]
    constructor
    · rintro ⟨_, hvalidate, heq⟩
      exact ⟨(Except.ok.inj heq).symm, _, hvalidate⟩
    · rintro ⟨rfl, _, hvalidate⟩
      exact ⟨_, hvalidate, rfl⟩
  refine ⟨hbreaks, ?_, hok, ?_⟩
  · rw [isInvalid_iff, hbreaks]
    refine and_congr_right fun _ => not_congr ?_
    constructor
    · rintro ⟨config, hconfig⟩
      exact ((hok config).mp hconfig).2
    · intro haccepted
      exact ⟨c, (hok c).mpr ⟨rfl, haccepted⟩⟩
  · rw [← Config.succeeds_engine]
    constructor
    · rintro ⟨config, e, hconfig, hengine⟩
      obtain ⟨rfl, haccepted⟩ := (hok config).mp hconfig
      exact ⟨haccepted, e, hengine⟩
    · rintro ⟨haccepted, e, hengine⟩
      exact ⟨c, e, (hok c).mpr ⟨rfl, haccepted⟩, hengine⟩

/-- **Settings can break down**, on their way to a configuration and on the way from there to an
engine. -/
theorem settings_break_down :
    (∃ overrides fault, Config.ofValue (.object overrides) none = .error (.access fault)) ∧
      ∃ overrides config fault, Config.ofValue (.object overrides) none = .ok config ∧
        config.engine = .error fault :=
  ⟨⟨[field "engine" (.list [.int 1])], _, rfl⟩, [field "sections" (.list [.int 1])], _, _, rfl, rfl⟩

end SeamLint.Scan
