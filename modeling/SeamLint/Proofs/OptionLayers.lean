import Mathlib.Data.List.Forall2
import SeamLint.Proofs.IntegerText
import SeamLint.Proofs.OptionEntries
import SeamLint.Settings.RuleSettings

set_option autoImplicit false

/-! # Options that exclude more

Exclusions are texts in layers: a key may be set in the shared options and again in every section.
Entries can be added to such a text in any layer (`Lengthened`). What this does to options is
followed from the configuration values (`alike_options`), through the layers, to the texts that are
looked up: under the keys of the exclusions that were added to, a lookup finds a text that lists at
least as much, and under every other key it finds the same (`lookup_of_optionsWiden`).
-/

namespace SeamLint.Text

/-! ## Pieces of joined texts -/

theorem pieces_ne_nil (p : Char → Bool) (cs : List Char) : pieces p cs ≠ [] := by
  cases cs with
  | nil => simp [pieces]
  | cons c cs =>
      unfold pieces
      split
      · simp
      · split <;> simp

/-- A separator that is put between two texts separates their pieces. -/
theorem pieces_append_cons {p : Char → Bool} {c : Char} (hc : p c = true) (as bs : List Char) :
    pieces p (as ++ c :: bs) = pieces p as ++ pieces p bs := by
  induction as with
  | nil => simp [pieces, hc]
  | cons a as ih =>
      show pieces p (a :: (as ++ c :: bs)) = pieces p (a :: as) ++ pieces p bs
      by_cases ha : p a = true
      · simp only [pieces, ha, if_true, ih, List.cons_append]
      · obtain ⟨piece, rest, hpieces⟩ := List.exists_cons_of_ne_nil (pieces_ne_nil p as)
        simp only [pieces, ha, ih, hpieces, List.cons_append, Bool.false_eq_true, if_false]

theorem trim_eq_nil {cs : List Char} (h : ∀ c ∈ cs, isBlank c = true) : trim cs = [] := by
  have hdrop : cs.dropWhile isBlank = [] := List.dropWhile_eq_nil_iff.mpr h
  rw [trim, hdrop]
  rfl

theorem afterLast_append_cons {c : Char} {as bs : List Char} (h : c ∉ bs) :
    afterLast c (as ++ c :: bs) = bs := by
  have hstop : ∀ b ∈ bs.reverse, (b != c) = true := by
    intro b hb
    have hne : b ≠ c := fun heq => h (heq ▸ List.mem_reverse.mp hb)
    simpa using hne
  have hreverse : (as ++ c :: bs).reverse = bs.reverse ++ c :: as.reverse := by simp
  rw [afterLast, hreverse, List.takeWhile_append_of_pos hstop]
  simp

end SeamLint.Text

namespace SeamLint.Settings

open SeamLint.Data SeamLint.Number SeamLint.Text

/-! ## Lists of entries -/

/-- The entries of a text, as lists of characters. -/
def entryLists (text : List Char) : List (List Char) :=
  ((pieces isSeparator text).map trim).filter fun entry => !entry.isEmpty

theorem symbolList_eq (text : String) :
    symbolList text = (entryLists text.toList).map String.ofList := rfl

theorem entryLists_append_cons {c : Char} (hc : isSeparator c = true) (as bs : List Char) :
    entryLists (as ++ c :: bs) = entryLists as ++ entryLists bs := by
  simp only [entryLists, pieces_append_cons hc, List.map_append, List.filter_append]

theorem isSeparator_of_isBlank {c : Char} (h : isBlank c = true) : isSeparator c = false := by
  by_contra hsep
  simp only [isSeparator, Bool.not_eq_false, Bool.or_eq_true, beq_iff_eq] at hsep
  rcases hsep with rfl | rfl
  · exact absurd h (by decide)
  · exact absurd h (by decide)

theorem entryLists_of_blank {blanks : List Char} (h : ∀ c ∈ blanks, isBlank c = true) :
    entryLists blanks = [] := by
  have hpieces : pieces isSeparator blanks = [blanks] :=
    pieces_of_all_not fun c hc => isSeparator_of_isBlank (h c hc)
  simp [entryLists, hpieces, trim_eq_nil h]

/-- A further entry begins here: the text is empty or begins with a separator. -/
def BeginsEntry (text : List Char) : Prop :=
  text = [] ∨ ∃ c rest, isSeparator c = true ∧ text = c :: rest

/-- A further entry can begin after the text: blanks apart, it is empty or ends with a
separator. -/
def EndsEntry (text : List Char) : Prop :=
  ∃ kept blanks, text = kept ++ blanks ∧ (∀ c ∈ blanks, isBlank c = true) ∧
    (kept = [] ∨ ∃ before c, isSeparator c = true ∧ kept = before ++ [c])

/-- Entries were appended to the text, if any. -/
def Lengthened (text longer : String) : Prop :=
  ∃ more, longer = text ++ more ∧ (EndsEntry text.toList ∨ BeginsEntry more.toList)

/-- **A lengthened text lists all that the text lists.** -/
theorem symbolList_subset_of_lengthened {text longer : String} (h : Lengthened text longer) :
    symbolList text ⊆ symbolList longer := by
  obtain ⟨more, rfl, h⟩ := h
  rw [symbolList_eq, symbolList_eq, String.toList_append]
  refine List.map_subset _ ?_
  rcases h with ⟨kept, blanks, htext, hblanks, rfl | ⟨before, c, hc, rfl⟩⟩ | hmore |
    ⟨c, rest, hc, hmore⟩
  · rw [htext, List.nil_append, entryLists_of_blank hblanks]
    exact List.nil_subset _
  · -- the blanks after the separator are no entry
    have hlonger : text.toList ++ more.toList = before ++ c :: (blanks ++ more.toList) := by
      simp [htext]
    have hshorter : text.toList = before ++ c :: blanks := by simp [htext]
    rw [hlonger, hshorter, entryLists_append_cons hc, entryLists_append_cons hc,
      entryLists_of_blank hblanks, List.append_nil]
    exact List.subset_append_left _ _
  · rw [hmore, List.append_nil]
    exact List.Subset.refl _
  · rw [hmore, entryLists_append_cons hc]
    exact List.subset_append_left _ _

/-! ## Keys -/

/-- The names of the options that exclude something. -/
def exclusionSuffixes : List String :=
  ["excluded_types", "excluded_methods", "excluded_namespaces"]

/-- The keys under which the exclusions of a rule stand. -/
def exclusionKeys (ruleId : String) : List String := exclusionSuffixes.map (optionKey ruleId)

theorem toList_optionKey (ruleId suffix : String) :
    (optionKey ruleId suffix).toList =
      ("dotnet_code_quality.".toList ++ ruleId.toList) ++ '.' :: suffix.toList := by
  have hdot : ".".toList = ['.'] := rfl
  show ("dotnet_code_quality." ++ ruleId ++ "." ++ suffix).toList = _
  rw [String.toList_append, String.toList_append, String.toList_append, hdot, List.append_assoc,
    List.singleton_append]

/-- **A key tells the rule and the option**, as long as the option has no dot in its name. -/
theorem optionKey_inj {ruleId ruleId' suffix suffix' : String} (hdot : '.' ∉ suffix.toList)
    (hdot' : '.' ∉ suffix'.toList) (h : optionKey ruleId suffix = optionKey ruleId' suffix') :
    ruleId = ruleId' ∧ suffix = suffix' := by
  have hlists := congrArg String.toList h
  rw [toList_optionKey, toList_optionKey] at hlists
  have hsuffix : suffix.toList = suffix'.toList := by
    have hlast := congrArg (afterLast '.') hlists
    rwa [afterLast_append_cons hdot, afterLast_append_cons hdot'] at hlast
  rw [hsuffix, List.append_cancel_right_eq, List.append_cancel_left_eq] at hlists
  exact ⟨String.toList_injective hlists, String.toList_injective hsuffix⟩

/-- None of the exclusions has a dot in its name. -/
theorem exists_suffix_of_mem_exclusionKeys {ruleId key : String} (h : key ∈ exclusionKeys ruleId) :
    ∃ suffix ∈ exclusionSuffixes, '.' ∉ suffix.toList ∧ key = optionKey ruleId suffix := by
  have hdots : ∀ suffix ∈ exclusionSuffixes, '.' ∉ suffix.toList := by decide
  obtain ⟨suffix, hsuffix, rfl⟩ := List.mem_map.mp h
  exact ⟨suffix, hsuffix, hdots suffix hsuffix, rfl⟩

/-! ## Entries that list more -/

/-- Of two texts under a key, the second lists at least as much if the key is one of the exclusions
of the rule, and is the same if it is another key. -/
def Widens (ruleId key text wider : String) : Prop :=
  text = wider ∨ key ∈ exclusionKeys ruleId ∧ symbolList text ⊆ symbolList wider

/-- The entries have the same keys in the same order, and the texts of the second widen those of
the first. -/
def EntriesWiden (ruleId : String) : Entries → Entries → Prop :=
  List.Forall₂ fun a b => a.1 = b.1 ∧ Widens ruleId a.1 a.2 b.2

section Widen

variable {ruleId : String}

theorem widens_refl (key text : String) : Widens ruleId key text text := Or.inl rfl

theorem entriesWiden_refl (entries : Entries) : EntriesWiden ruleId entries entries :=
  List.forall₂_same.mpr fun entry _ => ⟨rfl, widens_refl entry.1 entry.2⟩

theorem entriesWiden_put {entries wider : Entries} (h : EntriesWiden ruleId entries wider)
    {key text text' : String} (htext : Widens ruleId key text text') :
    EntriesWiden ruleId (Entries.put key text entries) (Entries.put key text' wider) := by
  induction h with
  | nil => exact .cons ⟨rfl, htext⟩ .nil
  | @cons a b rest rest' hab hrest ih =>
      obtain ⟨k, old⟩ := a
      obtain ⟨k', old'⟩ := b
      obtain ⟨rfl, hold⟩ := hab
      by_cases hk : k = key
      · subst hk
        simp only [Entries.put, if_true]
        exact .cons ⟨rfl, htext⟩ hrest
      · simp only [Entries.put, if_neg hk]
        exact .cons ⟨rfl, hold⟩ ih

theorem get?_of_entriesWiden {entries wider : Entries} (h : EntriesWiden ruleId entries wider)
    (key : String) :
    Option.Rel (Widens ruleId key) (Entries.get? key entries) (Entries.get? key wider) := by
  induction h with
  | nil => exact .none
  | @cons a b rest rest' hab hrest ih =>
      obtain ⟨k, text⟩ := a
      obtain ⟨k', text'⟩ := b
      obtain ⟨rfl, htext⟩ := hab
      by_cases hk : k = key
      · subst hk
        simp only [Entries.get?, if_true]
        exact .some htext
      · simp only [Entries.get?, if_neg hk]
        exact ih

/-! ## Layers that list more -/

/-- The sections hold for the same files, and the entries of the second list more. -/
structure SectionWidens (ruleId : String) (s wider : Section) : Prop where
  pattern : s.pattern = wider.pattern
  entries : EntriesWiden ruleId s.entries wider.entries

/-- Layer by layer, the entries of the second options list more. -/
structure OptionsWiden (ruleId : String) (o wider : Options) : Prop where
  shared : EntriesWiden ruleId o.shared wider.shared
  sections : List.Forall₂ (SectionWidens ruleId) o.sections wider.sections

theorem get?_of_sectionWidens {s wider : Section} (h : SectionWidens ruleId s wider)
    (scope key : String) :
    Option.Rel (Widens ruleId key) (s.get? scope key) (wider.get? scope key) := by
  have happlies : s.appliesTo scope = wider.appliesTo scope := by
    simp only [Section.appliesTo, h.pattern]
  have hentries := get?_of_entriesWiden h.entries key
  unfold Section.get?
  revert hentries
  generalize Entries.get? key s.entries = found
  generalize Entries.get? key wider.entries = found'
  intro hentries
  cases hentries with
  | none => exact .none
  | some htext =>
      simp only [happlies]
      split
      · exact .some htext
      · exact .none

theorem getD_of_rel {α : Type} {R : α → α → Prop} {a b : Option α} {d : α}
    (h : Option.Rel R a b) (hd : R d d) : R (a.getD d) (b.getD d) := by
  cases h with
  | none => exact hd
  | some h => exact h

theorem eq_of_rel {α : Type} {R : α → α → Prop} (hR : ∀ a b, R a b → a = b) {a b : Option α}
    (h : Option.Rel R a b) : a = b := by
  cases h with
  | none => rfl
  | some h => rw [hR _ _ h]

theorem or_of_rel {α : Type} {R : α → α → Prop} {a a' b b' : Option α} (ha : Option.Rel R a a')
    (hb : Option.Rel R b b') : Option.Rel R (a.or b) (a'.or b') := by
  cases ha with
  | none => exact hb
  | some h => exact .some h

/-- **Lookups through layers that list more.** -/
theorem lookup_of_optionsWiden {o wider : Options} (h : OptionsWiden ruleId o wider)
    (scope key : String) :
    Option.Rel (Widens ruleId key) (o.lookup scope key) (wider.lookup scope key) := by
  -- the layers are gone through from the first to the last, with what was found so far
  have hlayers {sections sections' : List Section}
      (hsections : List.Forall₂ (SectionWidens ruleId) sections sections') :
      ∀ found found', Option.Rel (Widens ruleId key) found found' →
        Option.Rel (Widens ruleId key)
          (sections.foldl (fun found s => (s.get? scope key).or found) found)
          (sections'.foldl (fun found s => (s.get? scope key).or found) found') := by
    induction hsections with
    | nil => exact fun _ _ hfound => hfound
    | cons hs _ ih =>
        intro found found' hfound
        exact ih _ _ (or_of_rel (get?_of_sectionWidens hs scope key) hfound)
  exact hlayers h.sections _ _ (get?_of_entriesWiden h.shared key)

end Widen

/-! ## Values that list more -/

/-- The fields are the same, or both set exclusions of the rule by texts, and the second text is the
first with further entries. -/
def FieldWidens (ruleId : String) (a b : Key × Value) : Prop :=
  a = b ∨ ∃ key ∈ exclusionKeys ruleId, ∃ text longer, a = field key (.text text) ∧
    b = field key (.text longer) ∧ Lengthened text longer

/-- The values are the same, or both are options that differ in such fields at most. -/
def ValueWidens (ruleId : String) (v w : Value) : Prop :=
  v = w ∨ ∃ fields fields', v = .object fields ∧ w = .object fields' ∧
    List.Forall₂ (FieldWidens ruleId) fields fields'

/-- Two attempts fail with the same fault, or both succeed with related results. -/
inductive Alike {ε α β : Type} (R : α → β → Prop) : Except ε α → Except ε β → Prop
  | ok {a : α} {b : β} : R a b → Alike R (.ok a) (.ok b)
  | error (fault : ε) : Alike R (.error fault) (.error fault)

theorem Alike.cases_eq {ε α β : Type} {R : α → β → Prop} {x : Except ε α} {y : Except ε β}
    (h : Alike R x y) :
    (∃ a b, x = .ok a ∧ y = .ok b ∧ R a b) ∨ ∃ fault, x = .error fault ∧ y = .error fault := by
  cases h with
  | ok h => exact Or.inl ⟨_, _, rfl, rfl, h⟩
  | error fault => exact Or.inr ⟨fault, rfl, rfl⟩

theorem Alike.mono {ε α β : Type} {R S : α → β → Prop} {x : Except ε α} {y : Except ε β}
    (h : Alike R x y) (hRS : ∀ a b, R a b → S a b) : Alike S x y := by
  cases h with
  | ok h => exact .ok (hRS _ _ h)
  | error fault => exact .error fault

theorem alike_of_eq {ε α : Type} {R : α → α → Prop} (hR : ∀ a, R a a) {x y : Except ε α}
    (h : x = y) : Alike R x y := by
  subst h
  cases x with
  | ok a => exact .ok (hR a)
  | error fault => exact .error fault

theorem alike_bind {ε α β α' β' : Type} {R : α → β → Prop} {S : α' → β' → Prop}
    {x : Except ε α} {y : Except ε β} {f : α → Except ε α'} {g : β → Except ε β'}
    (hx : Alike R x y) (hf : ∀ a b, R a b → Alike S (f a) (g b)) :
    Alike S (x >>= f) (y >>= g) := by
  cases hx with
  | ok h => exact hf _ _ h
  | error fault => exact .error fault

theorem alike_mapM {ε α β α' β' : Type} {R : α → β → Prop} {S : α' → β' → Prop}
    {f : α → Except ε α'} {g : β → Except ε β'} (hf : ∀ a b, R a b → Alike S (f a) (g b))
    {as : List α} {bs : List β} (h : List.Forall₂ R as bs) :
    Alike (List.Forall₂ S) (as.mapM f) (bs.mapM g) := by
  induction h with
  | nil => exact .ok .nil
  | cons hab _ ih =>
      rw [List.mapM_cons, List.mapM_cons]
      refine alike_bind (hf _ _ hab) fun a b hab => ?_
      exact alike_bind ih fun as bs hrest => .ok (.cons hab hrest)

/-! ## Values that are related -/

/-- The values are the same, or both are sections that differ in their options at most, which are
related. -/
def SectionRel (R : Value → Value → Prop) (v w : Value) : Prop :=
  v = w ∨ ∃ fields fields', v = .object fields ∧ w = .object fields' ∧
    List.Forall₂ (fun a b => a = b ∨ ∃ o o', a = field "options" o ∧ b = field "options" o' ∧
      R o o') fields fields'

/-- The values are the same, or both are lists of such sections. -/
def SectionListRel (R : Value → Value → Prop) (v w : Value) : Prop :=
  v = w ∨ ∃ items items', v = .list items ∧ w = .list items' ∧
    List.Forall₂ (SectionRel R) items items'

/-- What two sections give under a name. -/
theorem get?_of_sectionFields {R : Value → Value → Prop} {fields fields' : Fields}
    (h : List.Forall₂ (fun a b => a = b ∨ ∃ o o', a = field "options" o ∧ b = field "options" o' ∧
      R o o') fields fields') (name : String) :
    Option.Rel (fun v w => v = w ∨ name = "options" ∧ R v w)
      (Fields.get? fields name) (Fields.get? fields' name) := by
  unfold Fields.get?
  induction h with
  | nil => exact .none
  | @cons a b rest rest' hab hrest ih =>
      rcases hab with rfl | ⟨o, o', rfl, rfl, ho⟩
      · obtain ⟨k, v⟩ := a
        simp only [Fields.find?]
        split
        · exact .some (Or.inl rfl)
        · exact ih
      · simp only [field, Fields.find?, Key.same, beq_iff_eq]
        by_cases hname : "options" = name
        · rw [if_pos hname, if_pos hname]
          exact .some (Or.inr ⟨hname.symm, ho⟩)
        · rw [if_neg hname, if_neg hname]
          exact ih

/-- Two sections hold for the same files. -/
theorem files_of_sectionFields {R : Value → Value → Prop} {fields fields' : Fields}
    (h : List.Forall₂ (fun a b => a = b ∨ ∃ o o', a = field "options" o ∧ b = field "options" o' ∧
      R o o') fields fields') : Fields.get? fields "files" = Fields.get? fields' "files" := by
  refine eq_of_rel (fun v w hvalue => ?_) (get?_of_sectionFields h "files")
  rcases hvalue with heq | ⟨hname, -⟩
  · exact heq
  · exact absurd hname (by decide)

section Related

variable {R : Value → Value → Prop} {E : Entries → Entries → Prop}
  (hrefl : ∀ entries, E entries entries)
  (hentries : ∀ v w, R v w → Alike E (entriesOfValue v) (entriesOfValue w))

include hrefl hentries

theorem alike_section {v w : Value} (h : SectionRel R v w) :
    Alike (fun s s' => s.pattern = s'.pattern ∧ E s.entries s'.entries) (Section.ofValue v)
      (Section.ofValue w) := by
  rcases h with rfl | ⟨fields, fields', rfl, rfl, h⟩
  · exact alike_of_eq (fun s => ⟨rfl, hrefl s.entries⟩) rfl
  · have hoptions : Alike E (entriesOfValue ((Fields.get? fields "options").getD .null))
        (entriesOfValue ((Fields.get? fields' "options").getD .null)) := by
      have hrel := get?_of_sectionFields h "options"
      rcases getD_of_rel hrel (Or.inl (Eq.refl Value.null)) with heq | ⟨-, hR⟩
      · exact alike_of_eq hrefl (congrArg entriesOfValue heq)
      · exact hentries _ _ hR
    rw [section_ofValue_object, section_ofValue_object, files_of_sectionFields h]
    refine alike_bind hoptions fun entries entries' h => ?_
    exact alike_bind (alike_of_eq (fun _ => rfl) rfl) fun pattern pattern' heq => .ok ⟨heq, h⟩

/-- **Related values make related options, layer by layer**, or fail in the same way. -/
theorem alike_layers {shared shared' sections sections' : Value} (hshared : R shared shared')
    (hsections : SectionListRel R sections sections') :
    Alike
      (fun o o' => E o.shared o'.shared ∧
        List.Forall₂ (fun s s' => s.pattern = s'.pattern ∧ E s.entries s'.entries) o.sections
          o'.sections)
      (Options.ofValues shared sections) (Options.ofValues shared' sections') := by
  have hsame (parts : List Value) : List.Forall₂ (SectionRel R) parts parts :=
    List.forall₂_same.mpr fun v _ => Or.inl rfl
  have hparts : Alike (List.Forall₂ (SectionRel R))
      (if sections.isGiven then sections.elements else .ok [])
      (if sections'.isGiven then sections'.elements else .ok []) := by
    rcases hsections with rfl | ⟨items, items', rfl, rfl, h⟩
    · exact alike_of_eq hsame rfl
    · cases h with
      | nil => exact .ok .nil
      | cons hitem hrest => exact .ok (.cons hitem hrest)
  rw [options_ofValues, options_ofValues]
  refine alike_bind (hentries _ _ hshared) fun entries entries' hE => ?_
  refine alike_bind hparts fun parts parts' hparts => ?_
  refine alike_bind (alike_mapM (fun v w h => alike_section hrefl hentries h) hparts)
    fun ss ss' hss => ?_
  exact .ok ⟨hE, hss⟩

end Related

/-! ## Options that list more -/

section Values

variable {ruleId : String}

theorem isWritableField_of_fieldWidens {a b : Key × Value} (h : FieldWidens ruleId a b) :
    isWritableField a = isWritableField b := by
  rcases h with rfl | ⟨key, -, text, longer, rfl, rfl, -⟩
  · rfl
  · rfl

theorem entriesWiden_addShown {a b : Key × Value} (h : FieldWidens ruleId a b)
    {entries wider : Entries} (hentries : EntriesWiden ruleId entries wider) :
    EntriesWiden ruleId (addShown entries a) (addShown wider b) := by
  rcases h with rfl | ⟨key, hkey, text, longer, rfl, rfl, hlonger⟩
  · unfold addShown
    cases optionShown a.2 with
    | none => exact hentries
    | some text => exact entriesWiden_put hentries (widens_refl _ _)
  · exact entriesWiden_put hentries (Or.inr ⟨hkey, symbolList_subset_of_lengthened hlonger⟩)

/-- Fields that list more have entries that list more, or cannot be written either. -/
theorem alike_entriesOf {fields fields' : Fields}
    (h : List.Forall₂ (FieldWidens ruleId) fields fields') :
    Alike (EntriesWiden ruleId) (entriesOf fields) (entriesOf fields') := by
  have hwritable : fields.all isWritableField = fields'.all isWritableField := by
    induction h with
    | nil => rfl
    | cons hab _ ih =>
        rw [List.all_cons, List.all_cons, ih, isWritableField_of_fieldWidens hab]
  -- the entries grow field by field, and no step loses the relation
  have hentries : ∀ entries entries', EntriesWiden ruleId entries entries' →
      EntriesWiden ruleId (fields.foldl addShown entries) (fields'.foldl addShown entries') := by
    clear hwritable
    induction h with
    | nil => exact fun _ _ hentries => hentries
    | cons hab _ ih => exact fun _ _ hentries => ih _ _ (entriesWiden_addShown hab hentries)
  rw [entriesOf_eq, entriesOf_eq, hwritable]
  split
  · exact .ok (hentries [] [] .nil)
  · exact .error _

theorem alike_entriesOfValue {v w : Value} (h : ValueWidens ruleId v w) :
    Alike (EntriesWiden ruleId) (entriesOfValue v) (entriesOfValue w) := by
  rcases h with rfl | ⟨fields, fields', rfl, rfl, h⟩
  · exact alike_of_eq entriesWiden_refl rfl
  · rw [entriesOfValue_object, entriesOfValue_object]
    exact alike_entriesOf h

/-- **Values that list more make options that list more**, or fail in the same way. -/
theorem alike_options {shared shared' sections sections' : Value}
    (hshared : ValueWidens ruleId shared shared')
    (hsections : SectionListRel (ValueWidens ruleId) sections sections') :
    Alike (OptionsWiden ruleId) (Options.ofValues shared sections)
      (Options.ofValues shared' sections') := by
  have hlayers := alike_layers entriesWiden_refl
    (fun v w h => alike_entriesOfValue h) hshared hsections
  exact hlayers.mono fun o wider h => ⟨h.1, h.2.imp fun s wider hs => ⟨hs.1, hs.2⟩⟩

end Values

end SeamLint.Settings
