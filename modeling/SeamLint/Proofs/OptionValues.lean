import Mathlib.Data.List.Induction
import SeamLint.Proofs.ConfigShape
import SeamLint.Proofs.Resolution
import SeamLint.Proofs.SymbolLists

set_option autoImplicit false

/-! # From option values to exclusions

Options are given as values, in layers, and looked up as texts. `effectiveValue?` is the value that
counts for a key in a scope: that of the last section that holds for the scope and gives one, or
else the shared one. A lookup finds the text of that value (`lookup_ofValues`).

A list becomes a text by commas between its items, and the text of an exclusion is cut at commas and
semicolons. So a list excludes its items, without the blanks around them, as long as no item has a
separator in it, and what an item with separators is cut into otherwise (`symbolList_join`).
-/

namespace SeamLint.Settings

open SeamLint.Data SeamLint.Text

/-! ## The value that counts -/

/-- The value of the last field under the key that is not null. -/
def boundValue? (key : String) (fields : Fields) : Option Value :=
  (fields.reverse.find? fun f => f.1.shown == key && f.2.shape != .null).map Prod.snd

/-- The value that an object binds the key to; other values bind nothing. -/
def valueUnder? (key : String) : Value → Option Value
  | .object fields => boundValue? key fields
  | _ => none

/-- The pattern of the files that a section holds for. -/
def sectionPattern (part : Value) : String :=
  ((part.get? "files").map Value.shown).getD defaultPattern

/-- The value that a section gives for the key in the scope. -/
def sectionValue? (scope key : String) (part : Value) : Option Value :=
  if Section.appliesTo ⟨sectionPattern part, []⟩ scope then
    (part.get? "options").bind (valueUnder? key)
  else none

/-- The sections that a value lists. -/
def sectionsOf : Value → List Value
  | .list parts => parts
  | _ => []

/-- The value that counts for the key in the scope: that of the last section that gives one, or
else the shared one. -/
def effectiveValue? (shared sections : Value) (scope key : String) : Option Value :=
  ((sectionsOf sections).reverse.findSome? (sectionValue? scope key)).or (valueUnder? key shared)

/-! ## Entries -/

/-- A value that counts is not null, so it has a text. -/
theorem optionShown_ne_none_of_valueUnder? {key : String} {v w : Value}
    (h : valueUnder? key v = some w) : optionShown w ≠ none := by
  cases v with
  | object fields =>
      obtain ⟨f, hf, rfl⟩ := Option.map_eq_some_iff.mp h
      have hfound := List.find?_some hf
      rw [Bool.and_eq_true, bne_iff_ne] at hfound
      exact fun hnone => hfound.2 (optionShown_eq_none_iff.mp hnone)
  | _ => cases h

theorem optionShown_ne_none_of_sectionValue? {scope key : String} {part v : Value}
    (h : sectionValue? scope key part = some v) : optionShown v ≠ none := by
  unfold sectionValue? at h
  split at h
  · obtain ⟨options, -, hvalue⟩ := Option.bind_eq_some_iff.mp h
    exact optionShown_ne_none_of_valueUnder? hvalue
  · cases h

theorem get?_put (key k text : String) (entries : Entries) :
    Entries.get? key (Entries.put k text entries) =
      if k = key then some text else Entries.get? key entries := by
  induction entries with
  | nil => simp [Entries.put, Entries.get?]
  | cons entry entries ih =>
      obtain ⟨k', old⟩ := entry
      by_cases hk : k' = k
      · subst hk
        by_cases hkey : k' = key
        · simp [Entries.put, Entries.get?, hkey]
        · simp [Entries.put, Entries.get?, hkey]
      · by_cases hkey : k' = key
        · subst hkey
          simp [Entries.put, Entries.get?, hk, Ne.symm hk]
        · simp [Entries.put, Entries.get?, hk, hkey, ih]

theorem shownEntries_concat (fields : Fields) (f : Key × Value) :
    shownEntries (fields ++ [f]) = addShown (shownEntries fields) f := by
  unfold shownEntries
  rw [List.foldl_append]
  rfl

/-- **Under a key stands the text of the value that it is bound to.** -/
theorem get?_shownEntries (key : String) (fields : Fields) :
    Entries.get? key (shownEntries fields) = (boundValue? key fields).bind optionShown := by
  -- the last field under the key counts, so the fields are taken off at the end
  induction fields using List.reverseRecOn with
  | nil => rfl
  | append_singleton fields f ih =>
      rw [shownEntries_concat, addShown, boundValue?, List.reverse_append, List.reverse_singleton,
        List.singleton_append, List.find?_cons]
      cases htext : optionShown f.2 with
      | none =>
          have hnull := optionShown_eq_none_iff.mp htext
          simp only [hnull, bne_self_eq_false, Bool.and_false]
          exact ih
      | some text =>
          have hgiven : (f.2.shape != .null) = true := by
            rw [bne_iff_ne, Ne, ← optionShown_eq_none_iff, htext]
            simp
          rw [hgiven, Bool.and_true, get?_put]
          by_cases hkey : f.1.shown = key
          · simp [hkey, htext]
          · simp only [hkey, if_false, beq_eq_false_iff_ne.mpr hkey]
            exact ih

/-- What options that have entries bind keys to, and that it can be shown. -/
theorem get?_entriesOfValue {v : Value} {entries : Entries} (h : entriesOfValue v = .ok entries)
    (key : String) : Entries.get? key entries = (valueUnder? key v).bind optionShown ∧
      ∀ w, valueUnder? key v = some w → w.isShowable = true := by
  cases v with
  | object fields =>
      rw [entriesOfValue_object, entriesOf_eq_ok_iff] at h
      obtain ⟨hwritable, rfl⟩ := h
      refine ⟨get?_shownEntries key fields, fun w hw => ?_⟩
      obtain ⟨f, hf, rfl⟩ := Option.map_eq_some_iff.mp hw
      have hfound := List.find?_some hf
      rw [Bool.and_eq_true, bne_iff_ne] at hfound
      have hfield := hwritable f (List.mem_reverse.mp (List.mem_of_find?_eq_some hf))
      rw [isWritableField, beq_eq_false_iff_ne.mpr hfound.2, Bool.false_or,
        Bool.and_eq_true] at hfield
      exact hfield.2
  | _ =>
      refine ⟨?_, fun w hw => nomatch hw⟩
      unfold entriesOfValue at h
      split at h
      · cases h
      · cases h
        rfl

/-! ## Layers -/

/-- A value that can be a section is an object. -/
theorem exists_fields_of_section {part : Value} {s : Section} (h : Section.ofValue part = .ok s) :
    ∃ fields, part = .object fields := by
  cases part with
  | object fields => exact ⟨fields, rfl⟩
  | _ => cases h

/-- What a section is made of. -/
theorem section_eq_ok {part : Value} {s : Section} (h : Section.ofValue part = .ok s) :
    s.pattern = sectionPattern part ∧
      entriesOfValue ((part.get? "options").getD .null) = .ok s.entries := by
  obtain ⟨fields, rfl⟩ := exists_fields_of_section h
  rw [section_ofValue_object] at h
  obtain ⟨entries, hentries, hrest⟩ := Scan.bind_eq_ok.mp h
  obtain ⟨pattern, hpattern, hs⟩ := Scan.bind_eq_ok.mp hrest
  obtain ⟨-, rfl⟩ := Scan.asText_eq_ok.mp hpattern
  cases hs
  refine ⟨?_, hentries⟩
  show ((Fields.get? fields "files").getD (.text defaultPattern)).shown =
    ((Fields.get? fields "files").map Value.shown).getD defaultPattern
  cases Fields.get? fields "files" <;> rfl

theorem section_get?_eq (s : Section) (scope key : String) :
    s.get? scope key = if s.appliesTo scope then Entries.get? key s.entries else none := by
  unfold Section.get?
  cases Entries.get? key s.entries <;> simp

/-- **A section gives the text of its value.** -/
theorem get?_section {part : Value} {s : Section} (h : Section.ofValue part = .ok s)
    (scope key : String) : s.get? scope key = (sectionValue? scope key part).bind optionShown := by
  obtain ⟨hpattern, hentries⟩ := section_eq_ok h
  have happlies : s.appliesTo scope = Section.appliesTo ⟨sectionPattern part, []⟩ scope := by
    simp only [Section.appliesTo, hpattern]
  rw [section_get?_eq, happlies, (get?_entriesOfValue hentries key).1, sectionValue?]
  split
  · cases part.get? "options" <;> rfl
  · rfl

theorem isShowable_of_sectionValue? {part : Value} {s : Section} (h : Section.ofValue part = .ok s)
    {scope key : String} {v : Value} (hv : sectionValue? scope key part = some v) :
    v.isShowable = true := by
  unfold sectionValue? at hv
  split at hv
  · obtain ⟨options, hoptions, hvalue⟩ := Option.bind_eq_some_iff.mp hv
    have hentries := (section_eq_ok h).2
    rw [hoptions, Option.getD_some] at hentries
    exact (get?_entriesOfValue hentries key).2 v hvalue
  · cases hv

/-- The last section that gives a text counts, and the shared text if there is none. -/
theorem lookup_eq (o : Options) (scope key : String) :
    o.lookup scope key =
      (o.sections.reverse.findSome? fun s => s.get? scope key).or (Entries.get? key o.shared) := by
  obtain ⟨shared, sections⟩ := o
  show sections.foldl (fun found s => (s.get? scope key).or found) (Entries.get? key shared) = _
  induction sections using List.reverseRecOn with
  | nil => rfl
  | append_singleton sections s ih =>
      rw [List.foldl_append, ih, List.reverse_append, List.reverse_singleton,
        List.singleton_append, List.findSome?_cons]
      cases hs : s.get? scope key <;> simp [hs]

/-- What is made of the parts, seen through a function of them. -/
theorem map_eq_of_mapM_eq_ok {ε α β γ : Type} {next : α → Except ε β} {f : α → γ} {g : β → γ}
    (hnext : ∀ a b, next a = .ok b → g b = f a) {as : List α} {bs : List β}
    (h : as.mapM next = .ok bs) : bs.map g = as.map f := by
  induction as generalizing bs with
  | nil =>
      cases h
      rfl
  | cons a as ih =>
      rw [List.mapM_cons] at h
      obtain ⟨b, hb, hrest⟩ := Scan.bind_eq_ok.mp h
      obtain ⟨bs', hbs', heq⟩ := Scan.bind_eq_ok.mp hrest
      cases heq
      rw [List.map_cons, List.map_cons, hnext a b hb, ih hbs']

/-- Sections can only be listed: the elements of anything else are no objects. -/
theorem sectionsOf_eq {sections : Value} {parts : List Value} {ss : List Section}
    (hparts : (if sections.isGiven then sections.elements else .ok []) =
      (.ok parts : Except AccessFault (List Value)))
    (hss : parts.mapM Section.ofValue = .ok ss) : sectionsOf sections = parts := by
  have hobjects : ∀ part ∈ parts, ∃ fields, part = .object fields := by
    intro part hpart
    obtain ⟨s, hs⟩ := Scan.succeeds_mapM.mp ⟨ss, hss⟩ part hpart
    exact exists_fields_of_section hs
  split at hparts
  case isTrue hgiven =>
    cases sections with
    | list items => exact Except.ok.inj hparts
    | text s =>
        obtain rfl := Except.ok.inj hparts
        cases hs : s.toList with
        | nil => rfl
        | cons c cs => simp [hs] at hobjects
    | object fields =>
        obtain rfl := Except.ok.inj hparts
        cases fields with
        | nil => rfl
        | cons f fields =>
            obtain ⟨fields', heq⟩ := hobjects f.1.value (by simp)
            obtain ⟨k, v⟩ := f
            cases k <;> cases heq
    | _ => cases hparts
  case isFalse hgiven =>
    obtain rfl := Except.ok.inj hparts
    cases sections with
    | list items => simpa [Value.isGiven, sectionsOf] using hgiven
    | _ => rfl

/-- The first that is found can be looked at before or after it is found, if nothing is lost by
looking at it. -/
theorem findSome?_bind {α β γ : Type} {f : α → Option β} {g : β → Option γ}
    (hg : ∀ a b, f a = some b → g b ≠ none) (as : List α) :
    as.findSome? (fun a => (f a).bind g) = (as.findSome? f).bind g := by
  induction as with
  | nil => rfl
  | cons a as ih =>
      rw [List.findSome?_cons, List.findSome?_cons]
      cases hf : f a with
      | none => exact ih
      | some b =>
          obtain ⟨c, hc⟩ := Option.ne_none_iff_exists'.mp (hg a b hf)
          simp [hc]

/-- What options are made of. -/
theorem ofValues_eq_ok {shared sections : Value} {o : Options}
    (h : Options.ofValues shared sections = .ok o) :
    entriesOfValue shared = .ok o.shared ∧
      (sectionsOf sections).mapM Section.ofValue = .ok o.sections := by
  rw [options_ofValues] at h
  obtain ⟨entries, hentries, h⟩ := Scan.bind_eq_ok.mp h
  obtain ⟨parts, hparts, h⟩ := Scan.bind_eq_ok.mp h
  obtain ⟨ss, hss, h⟩ := Scan.bind_eq_ok.mp h
  cases h
  rw [sectionsOf_eq hparts hss]
  exact ⟨hentries, hss⟩

/-- **A lookup finds the text of the value that counts.** -/
theorem lookup_ofValues {shared sections : Value} {o : Options}
    (h : Options.ofValues shared sections = .ok o) (scope key : String) :
    o.lookup scope key = (effectiveValue? shared sections scope key).bind optionShown := by
  obtain ⟨hshared, hsections⟩ := ofValues_eq_ok h
  have hlayers : (o.sections.reverse.findSome? fun s => s.get? scope key) =
      ((sectionsOf sections).reverse.findSome? (sectionValue? scope key)).bind optionShown := by
    have hmap := map_eq_of_mapM_eq_ok (fun part s hs => get?_section hs scope key) hsections
    rw [← findSome?_bind fun part v => optionShown_ne_none_of_sectionValue?]
    have hreverse := congrArg (fun texts => texts.reverse.findSome? id) hmap
    simpa [← List.map_reverse, List.findSome?_map] using hreverse
  rw [lookup_eq, effectiveValue?, hlayers, (get?_entriesOfValue hshared key).1]
  cases hfound : (sectionsOf sections).reverse.findSome? (sectionValue? scope key) with
  | none => rfl
  | some v =>
      obtain ⟨part, -, hpart⟩ := List.exists_of_findSome?_eq_some hfound
      obtain ⟨text, htext⟩ :=
        Option.ne_none_iff_exists'.mp (optionShown_ne_none_of_sectionValue? hpart)
      simp [htext]

/-- In options that were read, a value that counts can be shown. -/
theorem isShowable_of_effectiveValue? {shared sections : Value} {o : Options}
    (h : Options.ofValues shared sections = .ok o) {scope key : String} {v : Value}
    (hv : effectiveValue? shared sections scope key = some v) : v.isShowable = true := by
  obtain ⟨hshared, hsections⟩ := ofValues_eq_ok h
  rcases Option.or_eq_some_iff.mp hv with hfound | ⟨-, hvalue⟩
  · obtain ⟨part, hmem, hpart⟩ := List.exists_of_findSome?_eq_some hfound
    obtain ⟨s, hs⟩ := Scan.succeeds_mapM.mp ⟨_, hsections⟩ part (List.mem_reverse.mp hmem)
    exact isShowable_of_sectionValue? hs hpart
  · exact (get?_entriesOfValue hshared key).2 v hvalue

/-! ## Lists as exclusions -/

/-- The text without the blanks around it. -/
def trimmed (text : String) : String := String.ofList (trim text.toList)

/-- The lists that the settings exclude by, under the names of their options. -/
def RuleSettings.exclusionLists (s : RuleSettings) : List (String × List String) :=
  [("excluded_types", s.excludedTypes), ("excluded_methods", s.excludedMethods),
   ("excluded_namespaces", s.excludedNamespaces)]

theorem RuleSettings.types_mem_exclusionLists (s : RuleSettings) :
    ("excluded_types", s.excludedTypes) ∈ s.exclusionLists :=
  List.mem_cons_self

theorem join_cons_cons (separator part next : String) (parts : List String) :
    join separator (part :: next :: parts) =
      part ++ separator ++ join separator (next :: parts) := by
  refine String.toList_injective ?_
  simp [join, List.intercalate_cons_cons]

/-- **A joined list lists what its items list.** -/
theorem symbolList_join (items : List String) :
    symbolList (join "," items) = items.flatMap symbolList := by
  induction items with
  | nil => rfl
  | cons item items ih =>
      cases items with
      | nil =>
          have hjoin : join "," [item] = item := String.toList_injective (by simp [join])
          rw [hjoin, List.flatMap_singleton]
      | cons next items =>
          rw [join_cons_cons, symbolList_append (Or.inl rfl), ih, List.flatMap_cons (x := item)]

theorem optionShown_texts (items : List String) :
    optionShown (.list (items.map .text)) = some (join "," items) := by
  have hshown : Value.shown ∘ Value.text = id := rfl
  rw [optionShown, List.map_map, hshown, List.map_id]

/-- A separator is no blank, so it is not trimmed off. -/
theorem mem_trimmed_of_isSeparator {item : String} {c : Char} (hc : c ∈ item.toList)
    (hseparator : isSeparator c = true) : c ∈ (trimmed item).toList := by
  obtain ⟨left, right, htext, hleft, hright⟩ := Number.exists_trim_eq item.toList
  have hblank : ¬isBlank c = true := fun hblank => by
    rw [isSeparator_of_isBlank hblank] at hseparator
    cases hseparator
  rw [htext, List.mem_append, List.mem_append] at hc
  rw [trimmed, String.toList_ofList]
  rcases hc with hc | hc | hc
  · exact absurd (hleft c hc) hblank
  · exact hc
  · exact absurd (hright c hc) hblank

theorem mem_symbolList_of_noSeparator {item entry : String}
    (h : ∀ c ∈ item.toList, isSeparator c = false) :
    entry ∈ symbolList item ↔ entry ≠ "" ∧ entry = trimmed item := by
  rw [symbolList_eq, entryLists_of_noSeparator h, trimmed]
  by_cases hnil : trim item.toList = []
  · simp [hnil]
  · constructor
    · intro hentry
      obtain rfl : entry = String.ofList (trim item.toList) := by simpa [hnil] using hentry
      exact ⟨by simpa using hnil, rfl⟩
    · rintro ⟨-, rfl⟩
      simp [hnil]

/-- **Items mean themselves if and only if none of them has a separator in it.** -/
theorem lists_items_iff {items : List String} :
    (∀ entry, entry ∈ items.flatMap symbolList ↔
        entry ≠ "" ∧ ∃ item ∈ items, entry = trimmed item) ↔
      ∀ item ∈ items, ',' ∉ item.toList ∧ ';' ∉ item.toList := by
  constructor
  · intro h item hitem
    have hnot (c : Char) (hseparator : isSeparator c = true) : c ∉ item.toList := by
      intro hc
      have hmem := mem_trimmed_of_isSeparator hc hseparator
      have hne : trimmed item ≠ "" := by
        rintro heq
        rw [heq] at hmem
        cases hmem
      -- what is listed has no separator in it, and the trimmed item has one
      have hlisted := (h (trimmed item)).mpr ⟨hne, item, hitem, rfl⟩
      obtain ⟨item', -, hentry⟩ := List.mem_flatMap.mp hlisted
      have hsymbol := (isJoined_symbolList item').2 _ hentry
      rw [hsymbol.isSeparator_eq_false hmem] at hseparator
      cases hseparator
    exact ⟨hnot ',' rfl, hnot ';' rfl⟩
  · intro h entry
    have hnone : ∀ item ∈ items, ∀ c ∈ item.toList, isSeparator c = false := by
      intro item hitem c hc
      rw [Bool.eq_false_iff, Ne, isSeparator_iff]
      rintro (rfl | rfl)
      · exact (h item hitem).1 hc
      · exact (h item hitem).2 hc
    rw [List.mem_flatMap]
    constructor
    · rintro ⟨item, hitem, hentry⟩
      obtain ⟨hne, heq⟩ := (mem_symbolList_of_noSeparator (hnone item hitem)).mp hentry
      exact ⟨hne, item, hitem, heq⟩
    · rintro ⟨hne, item, hitem, heq⟩
      exact ⟨item, hitem, (mem_symbolList_of_noSeparator (hnone item hitem)).mpr ⟨hne, heq⟩⟩

/-- The name of a type with its mark is listed by itself if and only if there is no separator in
the name. -/
theorem marked_mem_symbolList_iff {name : String} (hne : name ≠ "")
    (htrimmed : trimmed name = name) :
    "T:" ++ name ∈ symbolList ("T:" ++ name) ↔ ',' ∉ name.toList ∧ ';' ∉ name.toList := by
  have hchars : ("T:" ++ name).toList = 'T' :: ':' :: name.toList := by simp
  constructor
  · intro hmem
    have hsymbol := (isJoined_symbolList _).2 _ hmem
    have hcomma := hsymbol.noComma
    have hsemicolon := hsymbol.noSemicolon
    rw [hchars] at hcomma hsemicolon
    exact ⟨fun hc => hcomma (by simp [hc]), fun hc => hsemicolon (by simp [hc])⟩
  · rintro ⟨hcomma, hsemicolon⟩
    have hlast : ∀ c ∈ ("T:" ++ name).toList.getLast?, isBlank c = false := by
      intro c hc
      have hnil : name.toList ≠ [] := by simpa using hne
      rw [String.toList_append, List.getLast?_append_of_ne_nil _ hnil, ← htrimmed, trimmed,
        String.toList_ofList] at hc
      exact isBlank_of_mem_getLast?_trim hc
    have hsymbol : IsSymbol ("T:" ++ name) := by
      refine ⟨?_, ?_, ?_, ?_, hlast⟩
      · simp
      · simpa [hchars] using hcomma
      · simpa [hchars] using hsemicolon
      · simp [hchars]
        decide
    have hread : symbolList ("" ++ ("T:" ++ name) ++ "") = ["T:" ++ name] :=
      symbolList_entry (by simp [IsBlankText]) (by simp [IsBlankText]) hsymbol
    rw [String.empty_append, String.append_empty] at hread
    rw [hread]
    exact List.mem_singleton.mpr rfl

/-- The lists of resolved settings are read from the texts that are looked up. -/
theorem exclusionList_eq {o : Options} {r : Request} {s : RuleSettings}
    (hs : (resolve o.provider r).settings = .ok s) {suffix : String} {listed : List String}
    (h : (suffix, listed) ∈ s.exclusionLists) :
    listed = symbolListOf (o.lookup r.scope (optionKey r.ruleId suffix)) := by
  obtain ⟨-, htypes, hmethods, hnamespaces, -⟩ := settings_resolveWith_eq_ok_iff.mp hs
  rw [text?_provider] at htypes hmethods hnamespaces
  simp only [RuleSettings.exclusionLists, List.mem_cons, Prod.mk.injEq, List.not_mem_nil,
    or_false] at h
  rcases h with ⟨rfl, rfl⟩ | ⟨rfl, rfl⟩ | ⟨rfl, rfl⟩
  · exact htypes
  · exact hmethods
  · exact hnamespaces

/-- A list as the value that counts excludes what its items list. -/
theorem exclusionList_of_items {shared sections : Value} {o : Options}
    (ho : Options.ofValues shared sections = .ok o) {r : Request} {s : RuleSettings}
    (hs : (resolve o.provider r).settings = .ok s) {suffix : String} {listed : List String}
    (h : (suffix, listed) ∈ s.exclusionLists) (items : List String)
    (hitems : effectiveValue? shared sections r.scope (optionKey r.ruleId suffix) =
      some (.list (items.map .text))) : listed = items.flatMap symbolList := by
  rw [exclusionList_eq hs h, lookup_ofValues ho, hitems, Option.bind_some, optionShown_texts,
    ← symbolList_join]
  rfl

/-- **A list excludes what its items are cut into.** Let a list of texts be the value that counts
for the types, methods or namespaces that a rule is to leave alone in a scope. Then the settings
that a resolver returns list the entries of its items, which commas and semicolons separate. These
are the items themselves, without the blanks around them and without blank ones, if and only if no
item has a comma or a semicolon in it. In particular a type is excluded by the list of its marked
name if and only if the name has none. -/
theorem list_excludes_pieces_of_items (shared sections : Value) (o : Options)
    (ho : Options.ofValues shared sections = .ok o) (resolver : Resolver)
    (hsound : resolver.Sound o.provider) (r : Request)
    (husable : ∀ d ∈ r.defaults, (o.provider r.scope (optionKey r.ruleId d.1)).IsUsable) :
    ∃ s, (resolver.resolve o.provider r).1.settings = .ok s ∧
      (∀ suffix listed, (suffix, listed) ∈ s.exclusionLists → ∀ items : List String,
        effectiveValue? shared sections r.scope (optionKey r.ruleId suffix) =
          some (.list (items.map .text)) →
        (∀ entry, entry ∈ listed ↔ ∃ item ∈ items, ∃ entries, IsJoined entries item ∧
          (∀ e ∈ entries, IsSymbol e) ∧ entry ∈ entries) ∧
        ((∀ entry, entry ∈ listed ↔ entry ≠ "" ∧ ∃ item ∈ items, entry = trimmed item) ↔
          ∀ item ∈ items, ',' ∉ item.toList ∧ ';' ∉ item.toList)) ∧
      ∀ name, name ≠ "" → trimmed name = name →
        effectiveValue? shared sections r.scope (optionKey r.ruleId "excluded_types") =
          some (.list [.text ("T:" ++ name)]) →
        (s.isTypeExcluded (some name) = true ↔ ',' ∉ name.toList ∧ ';' ∉ name.toList) := by
  obtain ⟨s, hs⟩ := exists_settings_resolve_iff.mpr husable
  refine ⟨s, (settings_resolve hsound r).trans hs, fun suffix listed hlisted items hitems => ?_,
    fun name hne htrimmed hitems => ?_⟩
  · rw [exclusionList_of_items ho hs hlisted items hitems, lists_items_iff]
    refine ⟨fun entry => ?_, Iff.rfl⟩
    rw [List.mem_flatMap]
    refine exists_congr fun item => and_congr_right fun _ => ⟨fun hentry => ?_, ?_⟩
    · exact ⟨symbolList item, (isJoined_symbolList item).1, (isJoined_symbolList item).2, hentry⟩
    · rintro ⟨entries, hjoined, hentries, hentry⟩
      rwa [symbolList_of_isJoined hjoined hentries]
  · have htypes := exclusionList_of_items ho hs s.types_mem_exclusionLists ["T:" ++ name] hitems
    rw [List.flatMap_singleton] at htypes
    rw [← marked_mem_symbolList_iff hne htrimmed, RuleSettings.isTypeExcluded, htypes]
    simp [RuleSettings.isProper, hne]

/-- Options that list a type with two type arguments. -/
def genericTypeOptions : Value :=
  .object [field "dotnet_code_quality.SEAM001.excluded_types"
    (.list [.text "T:System.Collections.Generic.Dictionary<string, int>"])]

/-- Sections of which the second one lists a type for the files of a directory. -/
def clockSections : Value :=
  .list [.object [field "options" (.object
      [field "dotnet_code_quality.SEAM001.excluded_types" (.text "T:App.Log")])],
    .object [field "files" (.text "src/*"), field "options" (.object
      [field "dotnet_code_quality.SEAM001.excluded_types" (.list [.text "T:App.Clock"])])],
    .object [field "files" (.text "*.cs"), field "options" (.object
      [field "dotnet_code_quality.SEAM001.excluded_types" .null])]]

/-- The last section that gives a value lists a type, and the type is excluded. -/
theorem list_excludes_pieces_of_items_section :
    ∃ o, Options.ofValues genericTypeOptions clockSections = .ok o ∧
      ∃ s, (Resolver.resolve {} o.provider ⟨"SEAM001", "src/App.cs", []⟩).1.settings = .ok s ∧
        (∀ entry, entry ∈ s.excludedTypes ↔
          entry ≠ "" ∧ ∃ item ∈ ["T:App.Clock"], entry = trimmed item) ∧
        s.isTypeExcluded (some "App.Clock") = true := by
  refine ⟨_, rfl, ?_⟩
  obtain ⟨s, hs, hlists, htype⟩ := list_excludes_pieces_of_items genericTypeOptions clockSections _
    rfl {} (sound_empty _) ⟨"SEAM001", "src/App.cs", []⟩ (fun d hd => nomatch hd)
  refine ⟨s, hs, ?_, (htype "App.Clock" (by decide) (by decide) rfl).mpr (by decide)⟩
  exact (hlists "excluded_types" s.excludedTypes s.types_mem_exclusionLists
    ["T:App.Clock"] rfl).2.mpr (by decide)

/-- **A type with two type arguments is not excluded by listing it**: its name is cut in two. -/
theorem generic_type_not_excluded :
    ∃ o, Options.ofValues genericTypeOptions .null = .ok o ∧
      effectiveValue? genericTypeOptions .null "src/App.cs" (optionKey "SEAM001" "excluded_types") =
        some (.list (["T:System.Collections.Generic.Dictionary<string, int>"].map .text)) ∧
      ∃ s, (Resolver.resolve {} o.provider ⟨"SEAM001", "src/App.cs", []⟩).1.settings = .ok s ∧
        s.excludedTypes = ["T:System.Collections.Generic.Dictionary<string", "int>"] ∧
        s.isTypeExcluded (some "System.Collections.Generic.Dictionary<string, int>") = false := by
  obtain ⟨o, ho⟩ : ∃ o, Options.ofValues genericTypeOptions .null = .ok o := ⟨_, rfl⟩
  have husable : ∀ d ∈ (⟨"SEAM001", "src/App.cs", []⟩ : Request).defaults,
      (o.provider "src/App.cs" (optionKey "SEAM001" d.1)).IsUsable := fun d hd => nomatch hd
  obtain ⟨s, hs⟩ := exists_settings_resolve_iff.mpr husable
  have htypes := exclusionList_of_items ho hs s.types_mem_exclusionLists
    ["T:System.Collections.Generic.Dictionary<string, int>"] rfl
  refine ⟨o, ho, rfl, s, (settings_resolve (sound_empty _) _).trans hs, htypes, ?_⟩
  rw [RuleSettings.isTypeExcluded, htypes]
  rfl

end SeamLint.Settings
