import SeamLint.Proofs.ConfigShape

set_option autoImplicit false

/-! # Overriding path by path

Objects are merged one field after another, and where both sides have an object under a key, the
merge goes on inside. Seen from outside each path of names has one value after the merge, and
which one it is depends on the two sides at this path and on nothing else: the overriding value if
there is one (`at?_mergeValue_of_bound`), else the one that was there before, unless the overriding
object ends the path early (`at?_mergeValue_of_unbound`). Overriding once more changes nothing
(`mergeValue_mergeValue_self`), and neither does putting the result on top of what it was made from
(`mergeValue_absorb`). All equalities keep the order of the fields.
-/

namespace SeamLint.Data

/-! ## Keys that differ -/

/-- The keys are allowed, and no two of them name the same field. -/
structure Fields.HasKeys (allowed : Key → Prop) (fields : Fields) : Prop where
  allowed : ∀ e ∈ fields, allowed e.1
  distinct : fields.Pairwise fun d e => d.1.same e.1 = false

/-- If the value is an object, its keys are allowed and differ, and so do the keys of all objects
that are reached from it through objects. -/
inductive Value.IsKeyed (allowed : Key → Prop) : Value → Prop
  | other {v : Value} (h : v.shape ≠ .object) : IsKeyed allowed v
  | object {fields : Fields} (hkeys : fields.HasKeys allowed)
      (hvalues : ∀ e ∈ fields, IsKeyed allowed e.2) : IsKeyed allowed (.object fields)

/-- The key is a text. -/
def Key.IsText (key : Key) : Prop := ∃ name, key = .text name

/-- Fields as JSON has them: the keys are texts, and no object has a key twice. -/
def Fields.IsJson (fields : Fields) : Prop := (Value.object fields).IsKeyed Key.IsText

/-- Fields of any document: no object has a key twice. -/
def Fields.IsDocument (fields : Fields) : Prop := (Value.object fields).IsKeyed fun _ => True

theorem isKeyed_object_iff {allowed : Key → Prop} {fields : Fields} :
    (Value.object fields).IsKeyed allowed ↔
      fields.HasKeys allowed ∧ ∀ e ∈ fields, e.2.IsKeyed allowed := by
  constructor
  · rintro (hother | ⟨hkeys, hvalues⟩)
    · exact absurd rfl hother
    · exact ⟨hkeys, hvalues⟩
  · rintro ⟨hkeys, hvalues⟩
    exact .object hkeys hvalues

theorem Value.IsKeyed.mono {allowed allowed' : Key → Prop} (h : ∀ k, allowed k → allowed' k)
    {v : Value} (hv : v.IsKeyed allowed) : v.IsKeyed allowed' := by
  induction hv with
  | other hother => exact .other hother
  | object hkeys _ ih => exact .object ⟨fun e he => h _ (hkeys.allowed e he), hkeys.distinct⟩ ih

theorem Fields.IsJson.isDocument {fields : Fields} (h : fields.IsJson) : fields.IsDocument :=
  h.mono fun _ _ => trivial

theorem hasKeys_nil {allowed : Key → Prop} : Fields.HasKeys allowed [] := ⟨nofun, .nil⟩

theorem hasKeys_cons_iff {allowed : Key → Prop} {k : Key} {v : Value} {fields : Fields} :
    Fields.HasKeys allowed ((k, v) :: fields) ↔
      allowed k ∧ (∀ e ∈ fields, k.same e.1 = false) ∧ fields.HasKeys allowed := by
  constructor
  · rintro ⟨hallowed, hdistinct⟩
    obtain ⟨hk, hrest⟩ := List.forall_mem_cons.mp hallowed
    obtain ⟨hfresh, hdistinct⟩ := List.pairwise_cons.mp hdistinct
    exact ⟨hk, hfresh, hrest, hdistinct⟩
  · rintro ⟨hk, hfresh, hrest, hdistinct⟩
    exact ⟨List.forall_mem_cons.mpr ⟨hk, hrest⟩, List.pairwise_cons.mpr ⟨hfresh, hdistinct⟩⟩

theorem same_self (key : Key) : key.same key = true := by
  cases key with
  | null => rfl
  | bool b => cases b <;> rfl
  | int n => exact beq_self_eq_true n
  | real x => rw [Key.same, beq_self_eq_true, Bool.true_or]
  | text s => exact beq_self_eq_true s

/-- The text names only the field that has it as its key. -/
theorem text_same {name : String} {key : Key} :
    (Key.text name).same key = true ↔ key = .text name := by
  cases key with
  | text s =>
    constructor
    · intro h
      rw [eq_of_beq h]
    · rintro ⟨⟩
      exact same_self _
  | _ => simp [Key.same, Key.integer?]

section Fields

variable {fields base override : Fields} {allowed : Key → Prop} {k key : Key} {name : String}
  {v w : Value}

/-! ## Looking up and storing -/

theorem find?_put_self : (fields.put key v).find? key = some v := by
  induction fields with
  | nil => rw [Fields.put, Fields.find?, if_pos (same_self key)]
  | cons e fields ih =>
    obtain ⟨k, w⟩ := e
    by_cases hsame : k.same key = true
    · rw [Fields.put, if_pos hsame, Fields.find?, if_pos hsame]
    · rw [Fields.put, if_neg hsame, Fields.find?, if_neg hsame, ih]

/-- Storing under another key does not change what is found under a name. -/
theorem get?_put_of_ne (h : key ≠ .text name) :
    (fields.put key v).get? name = fields.get? name := by
  unfold Fields.get?
  induction fields with
  | nil => exact if_neg (mt same_text.mp h)
  | cons e fields ih =>
    obtain ⟨k, w⟩ := e
    by_cases hsame : k.same key = true
    · have hne : ¬k.same (.text name) = true := by
        intro hname
        obtain rfl := same_text.mp hname
        exact h (text_same.mp hsame)
      rw [Fields.put, if_pos hsame, Fields.find?, if_neg hne, Fields.find?, if_neg hne]
    · rw [Fields.put, if_neg hsame, Fields.find?, Fields.find?, ih]

theorem put_of_find? (h : fields.find? key = some v) : fields.put key v = fields := by
  induction fields with
  | nil => cases h
  | cons e fields ih =>
    obtain ⟨k, w⟩ := e
    rw [Fields.find?] at h
    rw [Fields.put]
    split at h
    · next hsame => rw [if_pos hsame, Option.some.inj h]
    · next hsame => rw [if_neg hsame, ih h]

/-- Storing brings in no key but the one that is stored. -/
theorem forall_mem_put {P : Key → Prop} (hfields : ∀ e ∈ fields, P e.1) (hkey : P key) :
    ∀ e ∈ fields.put key v, P e.1 := by
  induction fields with
  | nil => simpa [Fields.put] using hkey
  | cons e fields ih =>
    obtain ⟨k, w⟩ := e
    obtain ⟨hk, hrest⟩ := List.forall_mem_cons.mp hfields
    rw [Fields.put]
    split
    · exact List.forall_mem_cons.mpr ⟨hk, hrest⟩
    · exact List.forall_mem_cons.mpr ⟨hk, ih hrest⟩

theorem get?_eq_none (h : ∀ e ∈ fields, (Key.text name).same e.1 = false) :
    fields.get? name = none := by
  unfold Fields.get?
  induction fields with
  | nil => rfl
  | cons e fields ih =>
    obtain ⟨k, w⟩ := e
    obtain ⟨hk, hrest⟩ := List.forall_mem_cons.mp h
    have hne : ¬k.same (.text name) = true := by
      intro hname
      rw [same_text.mp hname, same_self] at hk
      cases hk
    rw [Fields.find?, if_neg hne, ih hrest]

theorem get?_of_mem (hkeys : fields.HasKeys allowed) (h : (.text name, v) ∈ fields) :
    fields.get? name = some v := by
  unfold Fields.get?
  induction fields with
  | nil => cases h
  | cons e fields ih =>
    obtain ⟨k, w⟩ := e
    obtain ⟨-, hfresh, hrest⟩ := hasKeys_cons_iff.mp hkeys
    rcases List.mem_cons.mp h with heq | hmem
    · obtain ⟨rfl, rfl⟩ := Prod.mk.inj heq
      rw [Fields.find?, if_pos (same_self _)]
    · have hne : ¬k.same (.text name) = true := by simp [hfresh _ hmem]
      rw [Fields.find?, if_neg hne, ih hrest hmem]

/-! ## Merged values -/

theorem mergeValue_other {base : Option Value} (h : w.shape ≠ .object) : mergeValue base w = w := by
  cases w with
  | object fields => exact absurd rfl h
  | _ => rfl

theorem exists_object_of_shape (h : v.shape = .object) : ∃ fields, v = .object fields := by
  cases v with
  | object fields => exact ⟨fields, rfl⟩
  | _ => cases h

/-- Only an object is merged with what overrides it. -/
theorem mergeValue_eq_of_other {base : Option Value} (h : ∀ v ∈ base, v.shape ≠ .object) :
    mergeValue base w = w := by
  cases w with
  | object fields =>
    unfold mergeValue
    split
    · next old => exact absurd rfl (h _ rfl)
    · rfl
  | _ => rfl

theorem mergeValue_none : mergeValue none w = w := mergeValue_eq_of_other nofun

/-- **What a merge finds under a name**: the two values of the name merged, or the only one. -/
theorem get?_mergeFields (hkeys : override.HasKeys allowed) :
    (mergeFields base override).get? name =
      ((override.get? name).map (mergeValue (base.get? name))).or (base.get? name) := by
  induction override generalizing base with
  | nil => rfl
  | cons e override ih =>
    obtain ⟨k, w⟩ := e
    obtain ⟨-, hfresh, hrest⟩ := hasKeys_cons_iff.mp hkeys
    rw [mergeFields, ih hrest]
    by_cases hk : k = .text name
    · subst hk
      have hhead : Fields.get? ((.text name, w) :: override) name = some w := by
        rw [Fields.get?, Fields.find?, if_pos (same_self _)]
      rw [get?_eq_none hfresh, hhead, Fields.get?, find?_put_self]
      rfl
    · have htail : Fields.get? ((k, w) :: override) name = Fields.get? override name := by
        rw [Fields.get?, Fields.find?, if_neg (mt same_text.mp hk)]
        rfl
      rw [get?_put_of_ne hk, htail]

theorem get?_mergeValue {base : Option Value} (hkeys : override.HasKeys allowed) :
    (mergeValue base (.object override)).get? name =
      ((override.get? name).map (mergeValue (base.bind (·.get? name)))).or
        (base.bind (·.get? name)) := by
  by_cases hbase : ∃ fields, base = some (.object fields)
  · obtain ⟨fields, rfl⟩ := hbase
    exact get?_mergeFields hkeys
  · have hother : ∀ v ∈ base, v.shape ≠ .object := by
      rintro v rfl hshape
      obtain ⟨fields, rfl⟩ := exists_object_of_shape hshape
      exact hbase ⟨fields, rfl⟩
    have hnone : base.bind (·.get? name) = none := by
      cases base with
      | none => rfl
      | some v =>
        cases v with
        | object fields => exact absurd rfl (hother _ rfl)
        | _ => rfl
    have hid : mergeValue none = id := funext fun _ => mergeValue_none
    rw [mergeValue_eq_of_other hother, hnone, hid, Option.map_id_fun, id, Option.or_none]
    rfl

/-! ## Overriding again -/

/-- A merge that stores only what is there already changes nothing. -/
theorem mergeFields_eq_self (h : ∀ e ∈ override,
    ∃ v, base.find? e.1 = some v ∧ mergeValue (some v) e.2 = v) :
    mergeFields base override = base := by
  induction override with
  | nil => rfl
  | cons e override ih =>
    obtain ⟨⟨v, hfind, hmerge⟩, hrest⟩ := List.forall_mem_cons.mp h
    rw [mergeFields, hfind, hmerge, put_of_find? hfind, ih hrest]

theorem exists_mergeValue_object (base : Option Value) (override : Fields) :
    ∃ merged, mergeValue base (.object override) = .object merged := by
  unfold mergeValue
  split
  · exact ⟨_, rfl⟩
  · exact ⟨_, rfl⟩

/-- **Overriding once more by the same value changes nothing.** -/
theorem mergeValue_mergeValue_self (hv : v.IsKeyed Key.IsText) (base : Option Value) :
    mergeValue (some (mergeValue base v)) v = mergeValue base v := by
  induction hv generalizing base with
  | other h => rw [mergeValue_other h, mergeValue_other h]
  | @object override hkeys _ ih =>
    obtain ⟨merged, hmerged⟩ := exists_mergeValue_object base override
    rw [hmerged]
    refine congrArg Value.object (mergeFields_eq_self fun e he => ?_)
    obtain ⟨name, hname⟩ := hkeys.allowed e he
    have hfind : override.get? name = some e.2 := get?_of_mem hkeys (hname ▸ he)
    refine ⟨mergeValue (base.bind (·.get? name)) e.2, ?_, ih e he _⟩
    calc Fields.find? e.1 merged = (mergeValue base (.object override)).get? name := by
          rw [hmerged, hname]; rfl
      _ = some (mergeValue (base.bind (·.get? name)) e.2) := by
          rw [get?_mergeValue hkeys, hfind]; rfl

theorem mergeValue_self (hv : v.IsKeyed Key.IsText) : mergeValue (some v) v = v := by
  simpa [mergeValue_none] using mergeValue_mergeValue_self hv none

/-! ## Overriding by the result -/

/-- What overrides the first field stays in its place. -/
theorem mergeFields_cons_of_same (h : k.same key = true) :
    mergeFields ((k, v) :: base) ((key, w) :: override) =
      mergeFields ((k, mergeValue (some v) w) :: base) override := by
  rw [mergeFields, Fields.find?, if_pos h, Fields.put, if_pos h]

theorem mergeFields_cons_of_not_same (h : k.same key = false) :
    mergeFields ((k, v) :: base) ((key, w) :: override) =
      mergeFields ((k, v) :: base.put key (mergeValue (base.find? key) w)) override := by
  have hne : ¬k.same key = true := by simp [h]
  rw [mergeFields, Fields.find?, if_neg hne, Fields.put, if_neg hne]

/-- A first field that nothing overrides stays as it is. -/
theorem mergeFields_cons_of_fresh (h : ∀ e ∈ override, k.same e.1 = false) :
    mergeFields ((k, v) :: base) override = (k, v) :: mergeFields base override := by
  induction override generalizing base with
  | nil => rfl
  | cons e override ih =>
    obtain ⟨hk, hrest⟩ := List.forall_mem_cons.mp h
    rw [mergeFields_cons_of_not_same hk, ih hrest, mergeFields]

/-- The first field is overridden by the one field that has its name, if there is one, and the
other fields are overridden by the rest. -/
theorem exists_mergeFields_cons (base : Fields) (v : Value) (hk : k.IsText)
    (hkeys : override.HasKeys allowed) :
    ∃ v', (v' = v ∨ ∃ e ∈ override, v' = mergeValue (some v) e.2) ∧
      mergeFields ((k, v) :: base) override =
        (k, v') :: mergeFields base (override.filter fun e => !k.same e.1) := by
  induction override generalizing base with
  | nil => exact ⟨v, Or.inl rfl, rfl⟩
  | cons e override ih =>
    obtain ⟨key, w⟩ := e
    obtain ⟨-, hfresh, hrest⟩ := hasKeys_cons_iff.mp hkeys
    by_cases hsame : k.same key = true
    · obtain ⟨name, rfl⟩ := hk
      obtain rfl := text_same.mp hsame
      have hfilter : (override.filter fun e => !(Key.text name).same e.1) = override :=
        List.filter_eq_self.mpr fun e he => by simp [hfresh e he]
      refine ⟨mergeValue (some v) w, Or.inr ⟨_, List.mem_cons_self, rfl⟩, ?_⟩
      rw [mergeFields_cons_of_same hsame, mergeFields_cons_of_fresh hfresh,
        List.filter_cons_of_neg (by simp [hsame]), hfilter]
    · rw [Bool.not_eq_true] at hsame
      obtain ⟨v', hv', hmerge⟩ := ih (base.put key (mergeValue (base.find? key) w)) hrest
      refine ⟨v', hv'.imp_right fun ⟨e, he, heq⟩ => ⟨e, List.mem_cons_of_mem _ he, heq⟩, ?_⟩
      rw [mergeFields_cons_of_not_same hsame, hmerge, List.filter_cons_of_pos (by simp [hsame]),
        mergeFields]

theorem mergeFields_nil (hkeys : override.HasKeys allowed) :
    mergeFields [] override = override := by
  induction override with
  | nil => rfl
  | cons e override ih =>
    obtain ⟨key, w⟩ := e
    obtain ⟨-, hfresh, hrest⟩ := hasKeys_cons_iff.mp hkeys
    rw [mergeFields, Fields.find?, mergeValue_none, Fields.put, mergeFields_cons_of_fresh hfresh,
      ih hrest]

/-- A merge brings in no keys but those of the two sides. -/
theorem forall_mem_mergeFields {P : Key → Prop} (hbase : ∀ e ∈ base, P e.1)
    (hoverride : ∀ e ∈ override, P e.1) : ∀ e ∈ mergeFields base override, P e.1 := by
  induction override generalizing base with
  | nil => exact hbase
  | cons e override ih =>
    obtain ⟨hkey, hrest⟩ := List.forall_mem_cons.mp hoverride
    exact ih (forall_mem_put hbase hkey) hrest

/-- The fields of a merge absorb those it started from, if their values do. -/
theorem mergeFields_absorb (hbase : base.HasKeys Key.IsText) (hkeys : override.HasKeys allowed)
    (hself : ∀ d ∈ base, mergeValue (some d.2) d.2 = d.2)
    (habsorb : ∀ d ∈ base, ∀ e ∈ override,
      mergeValue (some d.2) (mergeValue (some d.2) e.2) = mergeValue (some d.2) e.2) :
    mergeFields base (mergeFields base override) = mergeFields base override := by
  induction base generalizing override with
  | nil => rw [mergeFields_nil hkeys, mergeFields_nil hkeys]
  | cons d base ih =>
    obtain ⟨k, v⟩ := d
    obtain ⟨hk, hfresh, hrest⟩ := hasKeys_cons_iff.mp hbase
    obtain ⟨hself, hself'⟩ := List.forall_mem_cons.mp hself
    obtain ⟨habsorb, habsorb'⟩ := List.forall_mem_cons.mp habsorb
    obtain ⟨v', hv', hmerge⟩ := exists_mergeFields_cons base v hk hkeys
    have hfirst : mergeValue (some v) v' = v' := by
      rcases hv' with rfl | ⟨e, he, rfl⟩
      · exact hself
      · exact habsorb e he
    -- what is left for the other fields has no key of the first one any more
    have hother : ∀ e ∈ override.filter fun e => !k.same e.1, k.same e.1 = false := by simp
    have hfilter : Fields.HasKeys allowed (override.filter fun e => !k.same e.1) :=
      ⟨fun e he => hkeys.allowed e (List.mem_of_mem_filter he), hkeys.distinct.filter _⟩
    have hmerged := forall_mem_mergeFields (P := fun key => k.same key = false) hfresh hother
    rw [hmerge, mergeFields_cons_of_same (same_self k), hfirst, mergeFields_cons_of_fresh hmerged,
      ih hrest hfilter hself' fun d hd e he => habsorb' d hd e (List.mem_of_mem_filter he)]

/-- **Overriding a value by what has become of it changes nothing.** -/
theorem mergeValue_absorb {base v : Value} (hv : v.IsKeyed allowed)
    (hbase : base.IsKeyed Key.IsText) :
    mergeValue (some base) (mergeValue (some base) v) = mergeValue (some base) v := by
  induction hv generalizing base with
  | other h => rw [mergeValue_other h, mergeValue_other h]
  | @object override hkeys _ ih =>
    cases hbase with
    | other h =>
      have hother : ∀ v ∈ some base, v.shape ≠ .object := by simpa using h
      rw [mergeValue_eq_of_other hother]
    | @object fields hfields hvalues =>
      refine congrArg Value.object (mergeFields_absorb hfields hkeys ?_ ?_)
      · exact fun d hd => mergeValue_self (hvalues d hd)
      · exact fun d hd e he => ih e he (hvalues d hd)

end Fields

/-! ## Paths -/

/-- The value that a path of names leads to, from object to object. -/
def Value.at? : Value → List String → Option Value
  | v, [] => some v
  | v, name :: path => (v.get? name).bind (·.at? path)

/-- The value that a path of names leads to. -/
def Fields.at? (fields : Fields) (path : List String) : Option Value :=
  (Value.object fields).at? path

/-- The path goes on where the value has something that is no object. -/
def Value.CutsOff (v : Value) (path : List String) : Prop :=
  ∃ before after w, path = before ++ after ∧ after ≠ [] ∧ v.at? before = some w ∧
    w.shape ≠ .object

section Paths

variable {v w : Value} {allowed : Key → Prop} {path : List String}

theorem at?_append (v : Value) (before after : List String) :
    v.at? (before ++ after) = (v.at? before).bind (·.at? after) := by
  induction before generalizing v with
  | nil => rfl
  | cons name before ih =>
    rw [List.cons_append, Value.at?, Value.at?, Option.bind_assoc]
    exact Option.bind_congr fun w _ => ih w

theorem at?_of_other (h : v.shape ≠ .object) (hpath : path ≠ []) : v.at? path = none := by
  cases path with
  | nil => exact absurd rfl hpath
  | cons name path =>
    cases v with
    | object fields => exact absurd rfl h
    | _ => rfl

theorem bind_at?_cons (base : Option Value) (name : String) (path : List String) :
    base.bind (·.at? (name :: path)) = (base.bind (·.get? name)).bind (·.at? path) := by
  cases base with
  | none => rfl
  | some v => rfl

/-- **Where the overriding value has something, it is merged with what was there.** -/
theorem at?_mergeValue_of_bound (base : Option Value) (hw : w.IsKeyed allowed)
    (h : w.at? path = some v) :
    (mergeValue base w).at? path = some (mergeValue (base.bind (·.at? path)) v) := by
  induction path generalizing w base with
  | nil =>
    obtain rfl := Option.some.inj h
    cases base with
    | none => rfl
    | some old => rfl
  | cons name path ih =>
    cases hw with
    | other hother =>
      rw [at?_of_other hother (List.cons_ne_nil name path)] at h
      cases h
    | @object override hkeys hvalues =>
      obtain ⟨next, hnext, hpath⟩ := Option.bind_eq_some_iff.mp h
      rw [Value.at?, get?_mergeValue hkeys, show override.get? name = some next from hnext,
        bind_at?_cons]
      exact ih _ (hvalues _ (mem_of_find?_eq_some hnext)) hpath

/-- **Where the overriding value has nothing, all stays as it was**, unless the path is cut off. -/
theorem at?_mergeValue_of_unbound (base : Option Value) (hw : w.IsKeyed allowed)
    (h : w.at? path = none) (hopen : ¬w.CutsOff path) :
    (mergeValue base w).at? path = base.bind (·.at? path) := by
  induction path generalizing w base with
  | nil => cases h
  | cons name path ih =>
    cases hw with
    | other hother => exact absurd ⟨[], name :: path, w, rfl, by simp, rfl, hother⟩ hopen
    | @object override hkeys hvalues =>
      rw [Value.at?, get?_mergeValue hkeys, bind_at?_cons]
      cases hnext : override.get? name with
      | none => rfl
      | some next =>
        have hget : (Value.object override).get? name = some next := hnext
        refine ih _ (hvalues _ (mem_of_find?_eq_some hnext)) (by simpa [Value.at?, hget] using h) ?_
        rintro ⟨before, after, u, rfl, hafter, hbefore, hshape⟩
        exact hopen ⟨name :: before, after, u, rfl, hafter, by simpa [Value.at?, hget], hshape⟩

theorem at?_mergeValue_of_cutsOff (base : Option Value) (hw : w.IsKeyed allowed)
    (h : w.CutsOff path) :
    (mergeValue base w).at? path = none := by
  obtain ⟨before, after, u, rfl, hafter, hbefore, hshape⟩ := h
  rw [at?_append, at?_mergeValue_of_bound base hw hbefore, mergeValue_other hshape]
  exact at?_of_other hshape hafter

end Paths

end SeamLint.Data

namespace SeamLint.Scan

open SeamLint.Data

/-! ## Configurations as settings -/

theorem isJson_defaultSettings : defaultSettings.IsJson := by
  simp (disch := decide) [Fields.IsJson, defaultSettings, field, isKeyed_object_iff,
    hasKeys_cons_iff, hasKeys_nil, Value.IsKeyed.other, Key.IsText, Key.same]

/-- **The settings of a configuration, given as the user's own, make the same configuration.** -/
theorem ofValue_data {overrides : Fields} (hkeys : overrides.IsDocument) {source : Option String}
    {config : Config} (h : Config.ofValue (.object overrides) source = .ok config)
    (source' : Option String) :
    Config.ofValue (.object config.data) source' = .ok { config with source := source' } := by
  have habsorb : mergeFields defaultSettings (mergeFields defaultSettings overrides) =
      mergeFields defaultSettings overrides :=
    Value.object.inj (mergeValue_absorb hkeys isJson_defaultSettings)
  obtain ⟨fields, hfields, h⟩ := bind_eq_ok.mp h
  obtain rfl : overrides = fields := Except.ok.inj (lift_eq_ok.mp hfields)
  obtain ⟨_, hvalidate, hconfig⟩ := bind_eq_ok.mp h
  obtain rfl := Except.ok.inj hconfig
  -- nothing that is validated depends on where the settings came from
  refine bind_eq_ok.mpr ⟨_, rfl, bind_eq_ok.mpr ⟨(), ?_, ?_⟩⟩
  · rw [habsorb]
    exact hvalidate
  · rw [habsorb]
    rfl

/-- **Objects are overridden path by path.** Let `o` override `b`, both as JSON has them. At every
path: what `o` has there, if it is no object, is there after the merge; an object of `o` is merged
with the object of `b`, or stands there alone if `b` has none; and where `o` has nothing, all is as
in `b`, unless `o` has something on the way that is no object, and then there is nothing. Overriding
by `o` again, or `b` by the result, changes nothing, and nor does overriding by no fields. So the
settings of every accepted configuration, whatever document they were read from, can be given as the
user's own settings and make the same configuration. -/
theorem merge_overrides_by_path {b o : Fields} (hb : b.IsJson) (ho : o.IsJson) :
    let m := mergeFields b o
    (∀ path,
      (∀ v, o.at? path = some v → v.shape ≠ .object → m.at? path = some v) ∧
      (∀ v, o.at? path = some (.object v) →
        (∀ w, b.at? path = some (.object w) → m.at? path = some (.object (mergeFields w v))) ∧
        ((∀ w, b.at? path ≠ some (.object w)) → m.at? path = some (.object v))) ∧
      (o.at? path = none →
        ((Value.object o).CutsOff path → m.at? path = none) ∧
        (¬(Value.object o).CutsOff path → m.at? path = b.at? path))) ∧
    mergeFields m o = m ∧ mergeFields b m = m ∧ mergeFields b [] = b ∧
    ∀ overrides : Fields, overrides.IsDocument → ∀ source config,
      Config.ofValue (.object overrides) source = .ok config →
      ∀ source', Config.ofValue (.object config.data) source' =
        .ok { config with source := source' } := by
  have hbound {path : List String} {v : Value} (h : o.at? path = some v) :
      (mergeFields b o).at? path = some (mergeValue (b.at? path) v) :=
    at?_mergeValue_of_bound (some (.object b)) ho h
  refine ⟨fun path => ⟨fun v h hother => ?_, fun v h => ⟨fun w hw => ?_, fun hnone => ?_⟩,
    fun h => ⟨fun hcut => ?_, fun hopen => ?_⟩⟩, ?_, ?_, rfl,
    fun overrides hkeys source config h source' => ofValue_data hkeys h source'⟩
  · rw [hbound h, mergeValue_other hother]
  · rw [hbound h, hw]
    rfl
  · have hother : ∀ w ∈ b.at? path, w.shape ≠ .object := by
      intro w hw hshape
      obtain ⟨fields, rfl⟩ := exists_object_of_shape hshape
      exact hnone fields hw
    rw [hbound h, mergeValue_eq_of_other hother]
  · exact at?_mergeValue_of_cutsOff (some (.object b)) ho hcut
  · exact at?_mergeValue_of_unbound (some (.object b)) ho h hopen
  · exact Value.object.inj (mergeValue_mergeValue_self ho (some (.object b)))
  · exact Value.object.inj (mergeValue_absorb ho hb)

/-- A severity for one rule, and null in place of the settings of the engine. -/
def severityAndNull : Fields :=
  [field "rules" (.object [field "severities" (.object [field "SEAM016" (.text "error")])]),
   field "engine" .null]

theorem not_cutsOff_severityAndNull :
    ¬(Value.object severityAndNull).CutsOff ["rules", "enabled"] := by
  rintro ⟨before, after, w, hpath, hafter, hat, hshape⟩
  rcases before with _ | ⟨name, _ | ⟨name', rest⟩⟩
  · obtain rfl := Option.some.inj hat
    exact hshape rfl
  · obtain ⟨rfl, -⟩ := List.cons.inj hpath
    obtain rfl := Option.some.inj hat
    exact hshape rfl
  · simp only [List.cons_append, List.cons.injEq, List.nil_eq, List.append_eq_nil_iff] at hpath
    exact hafter hpath.2.2.2

/-- The severity is set, the list of rules that are on is kept, nothing is left of the engine's
settings, and the configuration can be made from its own settings. -/
theorem merge_overrides_by_path_settings :
    let m := mergeFields defaultSettings severityAndNull
    m.at? ["rules", "severities", "SEAM016"] = some (.text "error") ∧
    m.at? ["rules", "enabled"] = some (.list []) ∧ m.at? ["engine", "max_workers"] = none ∧
    mergeFields m severityAndNull = m ∧
    ∃ config, Config.ofValue (.object severityAndNull) none = .ok config ∧
      Config.ofValue (.object config.data) none = .ok config := by
  have hkeys : severityAndNull.IsJson := by
    simp (disch := decide) [Fields.IsJson, severityAndNull, field, isKeyed_object_iff,
      hasKeys_cons_iff, hasKeys_nil, Value.IsKeyed.other, Key.IsText, Key.same]
  obtain ⟨hpaths, hagain, -, -, hdata⟩ := merge_overrides_by_path isJson_defaultSettings hkeys
  have hcut : (Value.object severityAndNull).CutsOff ["engine", "max_workers"] :=
    ⟨["engine"], ["max_workers"], .null, rfl, by decide, rfl, by decide⟩
  refine ⟨(hpaths _).1 _ rfl (by decide), ?_, ((hpaths _).2.2 rfl).1 hcut, hagain, _, rfl, ?_⟩
  · rw [((hpaths ["rules", "enabled"]).2.2 rfl).2 not_cutsOff_severityAndNull]
    rfl
  · exact hdata _ hkeys.isDocument none _ rfl none

end SeamLint.Scan
