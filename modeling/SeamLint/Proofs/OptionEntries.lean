import SeamLint.Settings.Options

set_option autoImplicit false

/-! # The entries of options

An option value becomes a text, unless it holds an integer with too many digits, and so does its
key. What becomes of a field does not depend on the fields before it, so options have entries if and
only if each of their fields can be written (`entriesOf_eq`), and these are put together field by
field (`addShown`).
-/

namespace SeamLint.Data

theorem mapM_asText (items : List Value) :
    items.mapM Value.asText =
      if items.all Value.isShowable then .ok (items.map Value.shown)
      else .error (.unwritable {}) := by
  induction items with
  | nil => rfl
  | cons v rest ih =>
      rw [List.mapM_cons, ih, List.all_cons, Value.asText]
      cases v.isShowable with
      | false => rfl
      | true => cases rest.all Value.isShowable <;> rfl

end SeamLint.Data

namespace SeamLint.Settings

open SeamLint.Data SeamLint.Text

/-- The text of an option value, whatever integers it holds. -/
def optionShown : Value → Option String
  | .null => none
  | .bool b => some (if b then "true" else "false")
  | .list items => some (join "," (items.map Value.shown))
  | v => some v.shown

/-- An option value has its text if it can be shown. -/
theorem optionText_eq (v : Value) :
    optionText v = if v.isShowable then .ok (optionShown v) else .error (.unwritable {}) := by
  cases v with
  | null => rfl
  | bool b => rfl
  | list items =>
      show (items.mapM Value.asText >>= fun texts => .ok (some (join "," texts))) = _
      rw [mapM_asText, Value.isShowable, areShowable_eq_all]
      cases items.all Value.isShowable <;> rfl
  | int n =>
      show (Value.asText (.int n) >>= fun text => .ok (some text)) = _
      rw [Value.asText]
      cases (Value.int n).isShowable <;> rfl
  | object fields =>
      show (Value.asText (.object fields) >>= fun text => .ok (some text)) = _
      rw [Value.asText]
      cases (Value.object fields).isShowable <;> rfl
  | real x => rfl
  | text s => rfl

theorem optionText_eq_ok_iff {v : Value} {text : Option String} :
    optionText v = .ok text ↔ v.isShowable = true ∧ optionShown v = text := by
  rw [optionText_eq]
  cases v.isShowable <;> simp

theorem optionShown_eq_none_iff {v : Value} : optionShown v = none ↔ v.shape = .null := by
  cases v <;> simp [optionShown, Value.shape]

/-- The field has an entry or needs none: its value is null, or it can be shown together with its
key. -/
def isWritableField (f : Key × Value) : Bool :=
  f.2.shape == .null || (f.1.isShowable && f.2.isShowable)

/-- Adds the entry of a field, whatever integers it holds. -/
def addShown (entries : Entries) (f : Key × Value) : Entries :=
  match optionShown f.2 with
  | some text => Entries.put f.1.shown text entries
  | none => entries

/-- The entries of fields, whatever integers they hold. -/
def shownEntries (fields : Fields) : Entries := fields.foldl addShown []

theorem addEntry_eq (entries : Entries) (f : Key × Value) :
    addEntry entries f =
      if isWritableField f then .ok (addShown entries f) else .error (.unwritable {}) := by
  unfold addEntry isWritableField addShown
  rw [optionText_eq]
  by_cases hnull : f.2.shape = .null
  · have hshowable : f.2.isShowable = true := by
      cases hv : f.2 with
      | null => rfl
      | _ => rw [hv] at hnull; cases hnull
    rw [optionShown_eq_none_iff.mpr hnull, hshowable, hnull]
    rfl
  · obtain ⟨text, htext⟩ := Option.ne_none_iff_exists'.mp (mt optionShown_eq_none_iff.mp hnull)
    rw [htext, beq_eq_false_iff_ne.mpr hnull, Key.asText]
    cases f.2.isShowable <;> cases f.1.isShowable <;> rfl

/-- **Fields have entries if and only if each of them can be written.** -/
theorem entriesOf_eq (fields : Fields) :
    entriesOf fields =
      if fields.all isWritableField then .ok (shownEntries fields)
      else .error (.unwritable {}) := by
  unfold entriesOf shownEntries
  generalize ([] : Entries) = entries
  induction fields generalizing entries with
  | nil => rfl
  | cons f fields ih =>
      rw [List.foldlM_cons, List.foldl_cons, List.all_cons, addEntry_eq]
      cases isWritableField f with
      | false => rfl
      | true => exact ih (addShown entries f)

theorem entriesOf_eq_ok_iff {fields : Fields} {entries : Entries} :
    entriesOf fields = .ok entries ↔
      (∀ f ∈ fields, isWritableField f = true) ∧ entries = shownEntries fields := by
  rw [entriesOf_eq, ← List.all_eq_true]
  cases fields.all isWritableField <;> simp [eq_comm]

/-! ## Sections -/

theorem entriesOfValue_object (fields : Fields) :
    entriesOfValue (.object fields) = entriesOf fields := by
  cases fields <;> rfl

theorem section_ofValue_object (fields : Fields) :
    Section.ofValue (.object fields) =
      entriesOfValue ((Fields.get? fields "options").getD .null) >>= fun entries =>
        ((Fields.get? fields "files").getD (.text defaultPattern)).asText >>= fun pattern =>
          .ok ⟨pattern, entries⟩ := rfl

theorem options_ofValues (shared sections : Value) :
    Options.ofValues shared sections =
      entriesOfValue shared >>= fun entries =>
        (if sections.isGiven then sections.elements else .ok []) >>= fun parts =>
          parts.mapM Section.ofValue >>= fun ss => .ok ⟨entries, ss⟩ := by
  unfold Options.ofValues
  split
  · rfl
  · rfl

end SeamLint.Settings
