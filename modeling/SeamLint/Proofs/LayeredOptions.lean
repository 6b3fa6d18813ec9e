import SeamLint.Proofs.OptionValues

set_option autoImplicit false

/-! # Which layer counts

Options are looked up in layers. `Counts` says which value counts for a key in a scope: the one that
the last section gives whose pattern matches the scope and whose options bind the key to something
but null, or else the one that the shared options bind it to. A lookup finds the text of that value
and nothing else (`lookup_eq_some_iff`).

So sections that give nothing for a key in a scope are as good as absent (`effectiveValue?_congr`),
and a null is as good as no field at all, in whichever layer it stands (`ofValues_withoutNulls`).
-/

namespace SeamLint.Settings

open SeamLint.Data SeamLint.Text

/-! ## Values that layers give -/

/-- The value binds the key: it is an object, and of its fields under the key that are not null the
last one holds the value. -/
def BindsTo (key : String) (options v : Value) : Prop :=
  ∃ before k after, options = .object (before ++ (k, v) :: after) ∧ k.shown = key ∧
    v.shape ≠ .null ∧ ∀ f ∈ after, f.1.shown = key → f.2.shape = .null

/-- The section gives the value for the key in the scope: its pattern matches the scope and its
options bind the key. -/
def SectionGives (scope key : String) (part v : Value) : Prop :=
  Section.appliesTo ⟨sectionPattern part, []⟩ scope = true ∧
    ∃ options, part.get? "options" = some options ∧ BindsTo key options v

/-- The section gives nothing for the key in the scope. -/
def GivesNothing (scope key : String) (part : Value) : Prop := ∀ v, ¬SectionGives scope key part v

/-- The value counts for the key in the scope: the last section that gives one gives this one, or no
section gives one and the shared options do. -/
def Counts (shared : Value) (parts : List Value) (scope key : String) (v : Value) : Prop :=
  (∃ before part after, parts = before ++ part :: after ∧ SectionGives scope key part v ∧
    ∀ later ∈ after, GivesNothing scope key later) ∨
  (∀ part ∈ parts, GivesNothing scope key part) ∧ BindsTo key shared v

/-! ## The last one that is found -/

theorem findSome?_reverse_eq_some_iff {α β : Type} {f : α → Option β} {as : List α} {b : β} :
    as.reverse.findSome? f = some b ↔
      ∃ before a after, as = before ++ a :: after ∧ f a = some b ∧ ∀ c ∈ after, f c = none := by
  rw [List.findSome?_eq_some_iff]
  constructor
  · rintro ⟨after, a, before, hreverse, ha, hafter⟩
    refine ⟨before.reverse, a, after.reverse, ?_, ha, by simpa using hafter⟩
    rw [← List.reverse_inj, hreverse]
    simp
  · rintro ⟨before, a, after, rfl, ha, hafter⟩
    exact ⟨after.reverse, a, before.reverse, by simp, ha, by simpa using hafter⟩

/-- What a field binds the key to. -/
def fieldValue? (key : String) (f : Key × Value) : Option Value :=
  if f.1.shown = key ∧ f.2.shape ≠ .null then some f.2 else none

theorem boundValue?_eq (key : String) (fields : Fields) :
    boundValue? key fields = fields.reverse.findSome? (fieldValue? key) := by
  unfold boundValue?
  induction fields.reverse with
  | nil => rfl
  | cons f fields ih =>
      rw [List.find?_cons, List.findSome?_cons]
      by_cases hf : f.1.shown = key ∧ f.2.shape ≠ .null
      · have htest : (f.1.shown == key && f.2.shape != .null) = true := by
          simpa using hf
        have hsome : fieldValue? key f = some f.2 := if_pos hf
        rw [htest, hsome]
        rfl
      · have htest : (f.1.shown == key && f.2.shape != .null) = false := by
          simpa using hf
        have hnone : fieldValue? key f = none := if_neg hf
        rw [htest, hnone]
        exact ih

theorem valueUnder?_eq_some_iff {key : String} {options v : Value} :
    valueUnder? key options = some v ↔ BindsTo key options v := by
  have hfields (fields : Fields) : boundValue? key fields = some v ↔
      BindsTo key (.object fields) v := by
    rw [boundValue?_eq, findSome?_reverse_eq_some_iff]
    constructor
    · rintro ⟨before, ⟨k, w⟩, after, rfl, hfield, hafter⟩
      obtain ⟨⟨hkey, hw⟩, rfl⟩ : (k.shown = key ∧ w.shape ≠ .null) ∧ w = v := by
        simpa [fieldValue?] using hfield
      refine ⟨before, k, after, rfl, hkey, hw, fun f hf hshown => ?_⟩
      have hnone := hafter f hf
      simpa [fieldValue?, hshown] using hnone
    · rintro ⟨before, k, after, heq, hkey, hv, hafter⟩
      obtain rfl := Value.object.inj heq
      refine ⟨before, (k, v), after, rfl, if_pos ⟨hkey, hv⟩, fun f hf => if_neg ?_⟩
      rintro ⟨hshown, hnull⟩
      exact hnull (hafter f hf hshown)
  cases options with
  | object fields => exact hfields fields
  | _ =>
      refine ⟨fun h => (nomatch h), ?_⟩
      rintro ⟨before, k, after, heq, -⟩
      cases heq

theorem sectionValue?_eq_some_iff {scope key : String} {part v : Value} :
    sectionValue? scope key part = some v ↔ SectionGives scope key part v := by
  unfold sectionValue? SectionGives
  split
  · next happlies =>
      rw [Option.bind_eq_some_iff]
      simp only [happlies, true_and, valueUnder?_eq_some_iff]
  · next happlies => simp [happlies]

theorem sectionValue?_eq_none_iff {scope key : String} {part : Value} :
    sectionValue? scope key part = none ↔ GivesNothing scope key part := by
  simp only [GivesNothing, ← sectionValue?_eq_some_iff, Option.eq_none_iff_forall_ne_some]

/-- **The value that is found is the one that counts.** -/
theorem effectiveValue?_eq_some_iff {shared sections : Value} {scope key : String} {v : Value} :
    effectiveValue? shared sections scope key = some v ↔
      Counts shared (sectionsOf sections) scope key v := by
  rw [effectiveValue?, Option.or_eq_some_iff, findSome?_reverse_eq_some_iff,
    List.findSome?_eq_none_iff, valueUnder?_eq_some_iff]
  simp only [List.mem_reverse, sectionValue?_eq_some_iff, sectionValue?_eq_none_iff, Counts]

section Lookup

variable {shared sections : Value} {o : Options} (h : Options.ofValues shared sections = .ok o)

include h

theorem optionText_of_counts {scope key : String} {v : Value}
    (hv : Counts shared (sectionsOf sections) scope key v) :
    optionText v = .ok (optionShown v) :=
  optionText_eq_ok_iff.mpr
    ⟨isShowable_of_effectiveValue? h (effectiveValue?_eq_some_iff.mpr hv), rfl⟩

/-- **A lookup finds the text of the value that counts.** -/
theorem lookup_eq_some_iff {scope key text : String} :
    o.lookup scope key = some text ↔
      ∃ v, Counts shared (sectionsOf sections) scope key v ∧ optionText v = .ok (some text) := by
  simp only [lookup_ofValues h, Option.bind_eq_some_iff, effectiveValue?_eq_some_iff]
  refine exists_congr fun v => and_congr_right fun hv => ?_
  rw [optionText_of_counts h hv, Except.ok.injEq]

theorem lookup_eq_none_iff {scope key : String} :
    o.lookup scope key = none ↔ ∀ v, ¬Counts shared (sectionsOf sections) scope key v := by
  rw [lookup_ofValues h]
  constructor
  · intro hnone v hv
    rw [effectiveValue?_eq_some_iff.mpr hv, Option.bind_some] at hnone
    -- a value that counts is not null
    rcases hv with ⟨before, part, after, -, hgives, -⟩ | ⟨-, hshared⟩
    · exact optionShown_ne_none_of_sectionValue? (sectionValue?_eq_some_iff.mpr hgives) hnone
    · exact optionShown_ne_none_of_valueUnder? (valueUnder?_eq_some_iff.mpr hshared) hnone
  · intro hno
    have hnone : effectiveValue? shared sections scope key = none :=
      Option.eq_none_iff_forall_ne_some.mpr fun v hv => hno v (effectiveValue?_eq_some_iff.mp hv)
    rw [hnone, Option.bind_none]

end Lookup

/-! ## Sections that give nothing -/

/-- The lists are the same but for elements with a property, which may stand anywhere in both. -/
inductive SameBut {α : Type} (P : α → Prop) : List α → List α → Prop
  | nil : SameBut P [] []
  | both {a : α} {as bs : List α} : SameBut P as bs → SameBut P (a :: as) (a :: bs)
  | left {a : α} {as bs : List α} : P a → SameBut P as bs → SameBut P (a :: as) bs
  | right {b : α} {as bs : List α} : P b → SameBut P as bs → SameBut P as (b :: bs)

theorem filterMap_eq_of_sameBut {α β : Type} {P : α → Prop} {f : α → Option β}
    (hf : ∀ a, P a → f a = none) {as bs : List α} (h : SameBut P as bs) :
    as.filterMap f = bs.filterMap f := by
  induction h with
  | nil => rfl
  | both _ ih => rw [List.filterMap_cons, List.filterMap_cons, ih]
  | left ha _ ih => rw [List.filterMap_cons_none (hf _ ha), ih]
  | right hb _ ih => rw [List.filterMap_cons_none (hf _ hb), ih]

/-- Sections that give nothing for the key in the scope do not bear on the value that counts. -/
theorem effectiveValue?_congr {shared sections sections' : Value} {scope key : String}
    (h : SameBut (GivesNothing scope key) (sectionsOf sections) (sectionsOf sections')) :
    effectiveValue? shared sections scope key = effectiveValue? shared sections' scope key := by
  -- the value of the last section that gives one is the last of the values that are given
  have hgiven := filterMap_eq_of_sameBut (fun part => sectionValue?_eq_none_iff.mpr) h
  have hlast (parts : List Value) : parts.reverse.findSome? (sectionValue? scope key) =
      (parts.filterMap (sectionValue? scope key)).getLast? := by
    rw [← List.head?_filterMap, List.filterMap_reverse, List.head?_reverse]
  rw [effectiveValue?, effectiveValue?, hlast, hlast, hgiven]

theorem ofValues_list (shared : Value) (parts : List Value) :
    Options.ofValues shared (.list parts) =
      entriesOfValue shared >>= fun entries =>
        parts.mapM Section.ofValue >>= fun ss => .ok ⟨entries, ss⟩ := by
  rw [options_ofValues]
  cases parts <;> rfl

theorem ofValues_list_eq_ok {shared : Value} {entries : Entries} {parts : List Value}
    {ss : List Section} (hshared : entriesOfValue shared = .ok entries)
    (hparts : parts.mapM Section.ofValue = .ok ss) :
    Options.ofValues shared (.list parts) = .ok ⟨entries, ss⟩ := by
  rw [ofValues_list, hshared]
  show parts.mapM Section.ofValue >>= _ = _
  rw [hparts]
  rfl

theorem isOptions_single (key : String) {v : Value} (h : v.isShowable = true) :
    Value.isOptions (.object [field key v]) = true := by
  have hkey : (Key.text key).isShowable = true := rfl
  simp [field, Value.isOptions, Value.isGroup, Value.shape, isWritableField, hkey, h]

theorem exists_ofValues_single (key : String) {v : Value} (h : v.isShowable = true) :
    ∃ o, Options.ofValues (.object [field key v]) .null = .ok o := by
  obtain ⟨entries, hentries⟩ := Scan.Config.succeeds_entriesOfValue.mpr (isOptions_single key h)
  refine ⟨⟨entries, []⟩, ?_⟩
  rw [options_ofValues, hentries]
  rfl

theorem exists_ofValue_single (pattern key : String) {v : Value} (h : v.isShowable = true) :
    ∃ s, Section.ofValue (.object [field "files" (.text pattern),
      field "options" (.object [field key v])]) = .ok s := by
  refine Scan.Config.succeeds_section.mpr ?_
  show (Value.isOptions (.object [field key v]) && true) = true
  rw [isOptions_single key h]
  rfl

theorem exists_ofValues_of_sections {shared : Value} {parts : List Value}
    (hshared : shared.isOptions = true)
    (hparts : ∀ part ∈ parts, ∃ s, Section.ofValue part = .ok s) :
    ∃ o, Options.ofValues shared (.list parts) = .ok o := by
  obtain ⟨entries, hentries⟩ := Scan.Config.succeeds_entriesOfValue.mpr hshared
  obtain ⟨ss, hss⟩ := Scan.succeeds_mapM.mpr hparts
  exact ⟨_, ofValues_list_eq_ok hentries hss⟩

/-- Sections can be given as the list of them. -/
theorem ofValues_sectionsOf {shared sections : Value} {o : Options}
    (h : Options.ofValues shared sections = .ok o) :
    Options.ofValues shared (.list (sectionsOf sections)) = .ok o := by
  obtain ⟨hshared, hsections⟩ := ofValues_eq_ok h
  exact ofValues_list_eq_ok hshared hsections

/-- Sections that were read can be rearranged, and others that can be read can be put between
them. -/
theorem exists_ofValues_list {shared sections : Value} {o : Options}
    (h : Options.ofValues shared sections = .ok o) {parts : List Value}
    (hparts : ∀ part ∈ parts, part ∈ sectionsOf sections ∨ ∃ s, Section.ofValue part = .ok s) :
    ∃ o', Options.ofValues shared (.list parts) = .ok o' := by
  obtain ⟨hshared, hsections⟩ := ofValues_eq_ok h
  refine exists_ofValues_of_sections (Scan.Config.succeeds_entriesOfValue.mp ⟨_, hshared⟩)
    fun part hpart => ?_
  rcases hparts part hpart with hmem | hsection
  · exact Scan.succeeds_mapM.mp ⟨_, hsections⟩ part hmem
  · exact hsection

/-! ## Nulls -/

/-- The options without the fields that are null. -/
def withoutNulls : Value → Value
  | .object fields => .object (fields.filter fun f => f.2.shape != .null)
  | v => v

/-- The fields of a section, with options that have no nulls. -/
def sectionFieldsWithoutNulls (fields : Fields) : Fields :=
  fields.map fun f => (f.1, if f.1.same (.text "options") then withoutNulls f.2 else f.2)

/-- The section with options that have no nulls. -/
def sectionWithoutNulls : Value → Value
  | .object fields => .object (sectionFieldsWithoutNulls fields)
  | v => v

/-- A field that is null can be written and adds nothing. -/
theorem addEntry_of_null {f : Key × Value} (h : f.2.shape = .null) (entries : Entries) :
    addEntry entries f = .ok entries := by
  rw [addEntry_eq, isWritableField, addShown, optionShown_eq_none_iff.mpr h, h]
  rfl

theorem entriesOf_filter (fields : Fields) :
    entriesOf (fields.filter fun f => f.2.shape != .null) = entriesOf fields := by
  unfold entriesOf
  generalize ([] : Entries) = entries
  induction fields generalizing entries with
  | nil => rfl
  | cons f fields ih =>
      rw [List.filter_cons, List.foldlM_cons]
      split
      · rw [List.foldlM_cons]
        exact congrArg _ (funext ih)
      · next hgiven =>
          have hnull : f.2.shape = .null := by simpa using hgiven
          rw [addEntry_of_null hnull]
          exact ih entries

theorem entriesOfValue_withoutNulls (v : Value) :
    entriesOfValue (withoutNulls v) = entriesOfValue v := by
  cases v with
  | object fields =>
      rw [withoutNulls, entriesOfValue_object, entriesOfValue_object, entriesOf_filter]
  | _ => rfl

theorem get?_sectionFieldsWithoutNulls (fields : Fields) (name : String) :
    Fields.get? (sectionFieldsWithoutNulls fields) name =
      (Fields.get? fields name).map fun v => if name = "options" then withoutNulls v else v := by
  unfold Fields.get? sectionFieldsWithoutNulls
  induction fields with
  | nil => rfl
  | cons f fields ih =>
      obtain ⟨k, v⟩ := f
      rw [List.map_cons, Fields.find?, Fields.find?]
      by_cases hname : k.same (.text name) = true
      · obtain rfl := same_text.mp hname
        simp [Key.same]
      · rw [if_neg hname, if_neg hname, ih]

/-- A section is the same without its nulls. -/
theorem ofValue_sectionWithoutNulls (part : Value) :
    Section.ofValue (sectionWithoutNulls part) = Section.ofValue part := by
  cases part with
  | object fields =>
      have hoptions : (Fields.get? (sectionFieldsWithoutNulls fields) "options").getD .null =
          withoutNulls ((Fields.get? fields "options").getD .null) := by
        rw [get?_sectionFieldsWithoutNulls]
        cases Fields.get? fields "options" <;> rfl
      have hfiles : Fields.get? (sectionFieldsWithoutNulls fields) "files" =
          Fields.get? fields "files" := by
        rw [get?_sectionFieldsWithoutNulls]
        cases Fields.get? fields "files" <;> rfl
      rw [sectionWithoutNulls, section_ofValue_object, section_ofValue_object, hoptions, hfiles,
        entriesOfValue_withoutNulls]
  | _ => rfl

/-- **Nulls can be left out of every layer.** -/
theorem ofValues_withoutNulls {shared sections : Value} {o : Options}
    (h : Options.ofValues shared sections = .ok o) :
    Options.ofValues (withoutNulls shared)
      (.list ((sectionsOf sections).map sectionWithoutNulls)) = .ok o := by
  have hlist := ofValues_sectionsOf h
  rw [ofValues_list] at hlist ⊢
  have hmap : Section.ofValue ∘ sectionWithoutNulls = Section.ofValue :=
    funext ofValue_sectionWithoutNulls
  rwa [entriesOfValue_withoutNulls, List.mapM_map, hmap]

/-! ## The last layer wins -/

/-- **The last layer that gives a value counts.** For options that were read, a lookup finds the
text of the value of the last section that matches the scope and binds the key to something but
null, or else of the shared value, or else nothing. Sections that give nothing for the key in the
scope may be put in, left out or moved anywhere, and the lookup finds the same. Without the nulls of
all layers the same options are read, so a null hides nothing. -/
theorem last_layer_counts {shared sections : Value} {o : Options}
    (h : Options.ofValues shared sections = .ok o) :
    (∀ scope key : String,
      (∀ text, o.lookup scope key = some text ↔
        ∃ v, Counts shared (sectionsOf sections) scope key v ∧ optionText v = .ok (some text)) ∧
      (o.lookup scope key = none ↔ ∀ v, ¬Counts shared (sectionsOf sections) scope key v) ∧
      ∀ parts : List Value,
        (∀ part ∈ parts, part ∈ sectionsOf sections ∨ ∃ s, Section.ofValue part = .ok s) →
        SameBut (GivesNothing scope key) (sectionsOf sections) parts →
        ∃ o', Options.ofValues shared (.list parts) = .ok o' ∧
          o'.lookup scope key = o.lookup scope key) ∧
    Options.ofValues (withoutNulls shared)
      (.list ((sectionsOf sections).map sectionWithoutNulls)) = .ok o := by
  refine ⟨fun scope key => ⟨fun text => lookup_eq_some_iff h, lookup_eq_none_iff h,
    fun parts hparts hsame => ?_⟩, ofValues_withoutNulls h⟩
  obtain ⟨o', ho'⟩ := exists_ofValues_list h hparts
  have hvalue : effectiveValue? shared sections scope key =
      effectiveValue? shared (.list parts) scope key := effectiveValue?_congr hsame
  refine ⟨o', ho', ?_⟩
  rw [lookup_ofValues h, lookup_ofValues ho', hvalue]

/-- Options that give a limit. -/
def limitOptions (limit : Value) : Value := .object [field "limit" limit]

/-- A section that gives a limit to the files of a pattern. -/
def limitSection (pattern : String) (limit : Value) : Value :=
  .object [field "files" (.text pattern), field "options" (limitOptions limit)]

/-- A limit for the sources, a null on top of it and a limit for other files. -/
def limitSections : List Value :=
  [limitSection "src/*" (.int 15), limitSection "*.cs" .null, limitSection "test/*" (.int 99)]

/-- The limit for other files may as well come first, and the null never hides one. -/
theorem last_layer_counts_reordered :
    ∃ o, Options.ofValues (limitOptions (.int 10)) (.list limitSections) = .ok o ∧
      o.lookup "src/App.cs" "limit" = some "15" ∧
      ∃ o', Options.ofValues (limitOptions (.int 10)) (.list
          [limitSection "test/*" (.int 99), limitSection "src/*" (.int 15),
            limitSection "*.cs" .null]) = .ok o' ∧
        o'.lookup "src/App.cs" "limit" = o.lookup "src/App.cs" "limit" := by
  have hsmall (n : Int) (hn : n.natAbs < 10 ^ 2) : (Value.int n).isShowable = true :=
    Number.isWritable_of_small hn
  have hshared : (limitOptions (.int 10)).isOptions = true :=
    isOptions_single _ (hsmall 10 (by decide))
  obtain ⟨o, ho⟩ :
      ∃ o, Options.ofValues (limitOptions (.int 10)) (.list limitSections) = .ok o := by
    refine exists_ofValues_of_sections hshared fun part hpart => ?_
    simp only [limitSections, List.mem_cons, List.not_mem_nil, or_false] at hpart
    rcases hpart with rfl | rfl | rfl
    · exact exists_ofValue_single _ _ (hsmall 15 (by decide))
    · exact exists_ofValue_single _ _ rfl
    · exact exists_ofValue_single _ _ (hsmall 99 (by decide))
  have hcounts : Counts (limitOptions (.int 10)) limitSections "src/App.cs" "limit" (.int 15) :=
    effectiveValue?_eq_some_iff.mp (show effectiveValue? _ (.list limitSections) _ _ = _ from rfl)
  have htext15 : optionText (.int 15) = .ok (some "15") :=
    optionText_eq_ok_iff.mpr ⟨hsmall 15 (by decide), by decide⟩
  have hother : GivesNothing "src/App.cs" "limit" (limitSection "test/*" (.int 99)) :=
    sectionValue?_eq_none_iff.mp rfl
  obtain ⟨htext, -, hsame⟩ := (last_layer_counts ho).1 "src/App.cs" "limit"
  refine ⟨o, ho, (htext "15").mpr ⟨_, hcounts, htext15⟩, hsame _ ?_ ?_⟩
  · simp [sectionsOf, limitSections]
  · exact .right hother (.both (.both (.left hother .nil)))

end SeamLint.Settings
