import Mathlib.Data.List.Nodup
import SeamLint.Json.Reader
import SeamLint.Proofs.JsonScalars

set_option autoImplicit false

/-! # Values as they are written and read

A run takes the reader of a text from state to state, token by token (`Run`). What `pretty` writes
of a value takes the reader to the state after that value, whatever is still open and whatever
follows (`isRead_of_isKept`), so the value is read back from its text (`read_pretty`). Reals are
left out, integers have to be short enough to be written, and the keys of an object have to be
distinct texts (`IsKept`).
-/

namespace SeamLint.Json

open SeamLint.Data SeamLint.Text SeamLint.Number

/-! ## Runs -/

/-- The character begins a word or a number. -/
def beginsScalar (c : Char) : Bool := !isSpace c && (punctuation? c).isNone && c != '\x22'

/-- Reading the whole text takes the reader from the first state to the second. -/
inductive Run : List Char → State → State → Prop
  | done (s : State) : Run [] s s
  | space {c : Char} {cs : List Char} {s last : State} (hc : isSpace c = true)
      (hrest : Run cs s last) : Run (c :: cs) s last
  | mark {c : Char} {cs : List Char} {token : Token} {s next last : State}
      (hc : isSpace c = false) (htoken : punctuation? c = some token)
      (hnext : ∀ offset, s.next ⟨offset, token⟩ = .ok next) (hrest : Run cs next last) :
      Run (c :: cs) s last
  | text {text rest : List Char} {s next last : State}
      (hnext : ∀ offset, s.next ⟨offset, .text (String.ofList text)⟩ = .ok next)
      (hrest : Run rest next last) :
      Run ('\x22' :: (text.flatMap writtenChar ++ '\x22' :: rest)) s last
  | scalar {c : Char} {cs rest : List Char} {v : Value} {s next last : State}
      (hc : beginsScalar c = true)
      (hread : ∀ offset, readScalar? offset (c :: cs) = some (.scalar v, rest))
      (hlength : rest.length ≤ cs.length)
      (hnext : ∀ offset, s.next ⟨offset, .scalar v⟩ = .ok next) (hrest : Run rest next last) :
      Run (c :: cs) s last

/-- **A run is what the reader does with the tokens of the text.** -/
theorem foldlM_of_run {cs : List Char} {s last : State} (h : Run cs s last) {fuel : Nat}
    (hfuel : cs.length ≤ fuel) (offset : Nat) :
    (tokensFrom fuel offset cs).foldlM State.next s = .ok last := by
  induction h generalizing fuel offset with
  | done s => cases fuel <;> rfl
  | @space c cs s last hc _ ih =>
    obtain ⟨fuel, rfl⟩ : ∃ n, fuel = n + 1 := ⟨fuel - 1, by simp at hfuel; omega⟩
    have hstep : tokensFrom (fuel + 1) offset (c :: cs) = tokensFrom fuel (offset + 1) cs := by
      simp [tokensFrom, hc]
    rw [hstep]
    exact ih (by simpa using hfuel) _
  | @mark c cs token s next last hc htoken hnext _ ih =>
    obtain ⟨fuel, rfl⟩ : ∃ n, fuel = n + 1 := ⟨fuel - 1, by simp at hfuel; omega⟩
    have hstep : tokensFrom (fuel + 1) offset (c :: cs) =
        ⟨offset, token⟩ :: tokensFrom fuel (offset + 1) cs := by
      simp [tokensFrom, hc, htoken]
    rw [hstep, List.foldlM_cons, hnext]
    exact ih (by simpa using hfuel) _
  | @text text rest s next last hnext _ ih =>
    simp only [List.length_cons, List.length_append] at hfuel
    obtain ⟨fuel, rfl⟩ : ∃ n, fuel = n + 1 := ⟨fuel - 1, by omega⟩
    obtain ⟨after, hread⟩ : ∃ after, readText offset .plain (offset + 1) []
        (text.flatMap writtenChar ++ '\x22' :: rest) = .ok ([].reverse ++ text, after, rest) :=
      readText_written (show TextState.IsBetween .plain from trivial) text offset _ [] rest
    have hstep : tokensFrom (fuel + 1) offset
        ('\x22' :: (text.flatMap writtenChar ++ '\x22' :: rest)) =
          ⟨offset, .text (String.ofList text)⟩ :: tokensFrom fuel after rest := by
      simp [tokensFrom, isSpace, punctuation?, hread]
    rw [hstep, List.foldlM_cons, hnext]
    exact ih (by omega) _
  | @scalar c cs rest v s next last hc hread hlength hnext _ ih =>
    simp only [List.length_cons] at hfuel
    obtain ⟨fuel, rfl⟩ : ∃ n, fuel = n + 1 := ⟨fuel - 1, by omega⟩
    have hbegins : isSpace c = false ∧ punctuation? c = none ∧ ¬c = '\x22' := by
      simpa [beginsScalar, and_assoc] using hc
    have hstep : tokensFrom (fuel + 1) offset (c :: cs) = ⟨offset, .scalar v⟩ ::
        tokensFrom fuel (offset + ((c :: cs).length - rest.length)) rest := by
      simp [tokensFrom, hbegins, hread]
    rw [hstep, List.foldlM_cons, hnext]
    exact ih (by omega) _

/-! ## Values that are kept -/

/-- The value can be written and read back. -/
inductive IsKept : Value → Prop
  | null : IsKept .null
  | bool (b : Bool) : IsKept (.bool b)
  | int {n : Int} (hn : isWritable n = true) : IsKept (.int n)
  | text (s : String) : IsKept (.text s)
  | list {items : List Value} (hitems : ∀ v ∈ items, IsKept v) : IsKept (.list items)
  | object {entries : List (String × Value)} (hnames : (entries.map Prod.fst).Nodup)
      (hvalues : ∀ entry ∈ entries, IsKept entry.2) :
      IsKept (.object (entries.map fun entry => field entry.1 entry.2))

@[simp]
theorem snd_field (name : String) (v : Value) : (field name v).2 = v := rfl

theorem exists_entries {fields : Fields} {names : List String}
    (h : fields.map Prod.fst = names.map Key.text) :
    ∃ entries : List (String × Value), entries.map Prod.fst = names ∧
      fields = entries.map fun entry => field entry.1 entry.2 := by
  induction fields generalizing names with
  | nil =>
    refine ⟨[], ?_, rfl⟩
    simpa using h
  | cons entry rest ih =>
    obtain ⟨key, v⟩ := entry
    cases names with
    | nil => cases h
    | cons name names =>
      obtain ⟨hkey, hrest⟩ := List.cons.inj h
      obtain ⟨entries, rfl, rfl⟩ := ih hrest
      obtain rfl : key = .text name := hkey
      exact ⟨(name, v) :: entries, rfl, rfl⟩

/-- An object is kept if its keys are distinct names and its values are kept. -/
theorem isKept_object {fields : Fields} (names : List String)
    (hkeys : fields.map Prod.fst = names.map Key.text) (hnames : names.Nodup)
    (hvalues : ∀ entry ∈ fields, IsKept entry.2) : IsKept (.object fields) := by
  obtain ⟨entries, rfl, rfl⟩ := exists_entries hkeys
  exact .object hnames fun entry hentry => hvalues _ (List.mem_map_of_mem hentry)

theorem isKept_list_map {α : Type} {as : List α} {write : α → Value}
    (h : ∀ a ∈ as, IsKept (write a)) : IsKept (.list (as.map write)) :=
  .list (List.forall_mem_map.mpr h)

theorem IsKept.isShowable {v : Value} (h : IsKept v) : v.isShowable = true := by
  induction h with
  | null => rfl
  | bool b => rfl
  | int hn => exact hn
  | text s => rfl
  | list _ ih => rw [Value.isShowable, areShowable_eq_all, List.all_eq_true.mpr ih]
  | object _ _ ih =>
    rw [Value.isShowable, haveShowable_eq_all, List.all_map, List.all_eq_true]
    exact fun entry hentry => ih entry hentry

theorem IsKept.write {v : Value} (h : IsKept v) : write v = .ok (pretty v) := if_pos h.isShowable

/-- A value can be taken in this state. -/
def TakesValue (s : State) : Prop := s.expected = .value ∨ s.expected = .valueOrClose

theorem next_scalar {s : State} (h : TakesValue s) (v : Value) (offset : Nat) :
    s.next ⟨offset, .scalar v⟩ = .ok (.complete s.pending v) := by
  obtain ⟨pending, expected, finished⟩ := s
  rcases h with rfl | rfl
  · rfl
  · rfl

theorem next_text {s : State} (h : TakesValue s) (text : String) (offset : Nat) :
    s.next ⟨offset, .text text⟩ = .ok (.complete s.pending (.text text)) := by
  obtain ⟨pending, expected, finished⟩ := s
  rcases h with rfl | rfl
  · rfl
  · rfl

theorem next_openList {s : State} (h : TakesValue s) (offset : Nat) :
    s.next ⟨offset, .openList⟩ = .ok ⟨.list [] :: s.pending, .valueOrClose, .null⟩ := by
  obtain ⟨pending, expected, finished⟩ := s
  rcases h with rfl | rfl
  · rfl
  · rfl

theorem next_openObject {s : State} (h : TakesValue s) (offset : Nat) :
    s.next ⟨offset, .openObject⟩ = .ok ⟨.object [] "" :: s.pending, .nameOrClose, .null⟩ := by
  obtain ⟨pending, expected, finished⟩ := s
  rcases h with rfl | rfl
  · rfl
  · rfl

/-! ## Pieces of a text -/

theorem run_spaces {spaces rest : List Char} {s last : State}
    (h : ∀ c ∈ spaces, isSpace c = true) (hrest : Run rest s last) :
    Run (spaces ++ rest) s last := by
  induction spaces with
  | nil => exact hrest
  | cons c spaces ih =>
    rw [List.forall_mem_cons] at h
    exact .space h.1 (ih h.2)

theorem run_newLine (level : Nat) {rest : List Char} {s last : State} (hrest : Run rest s last) :
    Run ((newLine level).toList ++ rest) s last := by
  refine run_spaces (fun c hc => ?_) hrest
  unfold newLine at hc
  rw [String.toList_ofList, List.mem_cons] at hc
  rcases hc with rfl | hc
  · rfl
  · rw [List.eq_of_mem_replicate hc]
    rfl

theorem run_writtenText (text : String) {rest : List Char} {s next last : State}
    (hnext : ∀ offset, s.next ⟨offset, .text text⟩ = .ok next) (hrest : Run rest next last) :
    Run ((writtenText text).toList ++ rest) s last := by
  have hchars : (writtenText text).toList ++ rest =
      '\x22' :: (text.toList.flatMap writtenChar ++ '\x22' :: rest) := by
    simp [writtenText]
  rw [hchars]
  refine .text ?_ hrest
  rwa [String.ofList_toList]

theorem beginsScalar_of_isDigit {c : Char} (h : c = '-' ∨ c.isDigit = true) :
    beginsScalar c = true := by
  rcases h with rfl | h
  · rfl
  · have hrange : 48 ≤ c.toNat ∧ c.toNat ≤ 57 := Char.isDigit_iff_toNat.mp h
    have hother : ∀ d ∈ [' ', '\t', '\n', '\r', '[', ']', '\x7b', '\x7d', ',', ':', '\x22'],
        c ≠ d := by
      rintro d hd rfl
      revert hrange
      simp only [List.mem_cons, List.not_mem_nil, or_false] at hd
      rcases hd with rfl | rfl | rfl | rfl | rfl | rfl | rfl | rfl | rfl | rfl | rfl
      all_goals decide
    simp only [List.forall_mem_cons] at hother
    obtain ⟨hspace, htab, hline, hreturn, hopen, hclose, hbrace, hend, hcomma, hcolon, hquote, -⟩ :=
      hother
    have hnone : punctuation? c = none := by
      unfold punctuation?
      split
      all_goals first | rfl | contradiction
    simp [beginsScalar, isSpace, hnone, hspace, htab, hline, hreturn, hquote]

theorem run_int {n : Int} (hn : isWritable n = true) {rest : List Char} {s last : State}
    (hs : TakesValue s) (hends : EndsNumber rest)
    (hrest : Run rest (.complete s.pending (.int n)) last) :
    Run ((toString n).toList ++ rest) s last := by
  have hread := fun offset => readScalar?_int hn offset hends
  cases hchars : (toString n).toList with
  | nil =>
    rw [toList_toString] at hchars
    exact absurd (List.append_eq_nil_iff.mp hchars).2 Nat.toDigits_ne_nil
  | cons c cs =>
    have hmem : c ∈ (toString n).toList := by
      rw [hchars]
      exact List.mem_cons_self
    have hc : c = '-' ∨ c.isDigit = true := isDigit_of_mem_toString hmem
    rw [hchars] at hread
    exact .scalar (beginsScalar_of_isDigit hc) hread (by simp) (next_scalar hs _) hrest

theorem readScalar?_null (offset : Nat) (rest : List Char) :
    readScalar? offset ('n' :: ['u', 'l', 'l'] ++ rest) = some (.scalar .null, rest) := by
  have hlength : "null".length = 4 := rfl
  simp [readScalar?, words, List.isPrefixOf, hlength]

theorem readScalar?_bool (b : Bool) (offset : Nat) (rest : List Char) :
    readScalar? offset ((if b then "true" else "false").toList ++ rest) =
      some (.scalar (.bool b), rest) := by
  have hlength : "true".length = 4 ∧ "false".length = 5 := ⟨rfl, rfl⟩
  cases b with
  | false => simp [readScalar?, words, List.isPrefixOf, hlength.2]
  | true => simp [readScalar?, words, List.isPrefixOf, hlength.1]

theorem run_null {rest : List Char} {s last : State} (hs : TakesValue s)
    (hrest : Run rest (.complete s.pending .null) last) : Run ("null".toList ++ rest) s last := by
  have hchars : "null".toList ++ rest = 'n' :: ['u', 'l', 'l'] ++ rest := by simp
  rw [hchars]
  exact .scalar rfl (fun offset => readScalar?_null offset rest)
    (List.suffix_append _ _).length_le (next_scalar hs _) hrest

theorem run_bool (b : Bool) {rest : List Char} {s last : State} (hs : TakesValue s)
    (hrest : Run rest (.complete s.pending (.bool b)) last) :
    Run ((if b then "true" else "false").toList ++ rest) s last := by
  have hread := fun offset => readScalar?_bool b offset rest
  cases b with
  | false =>
    have hchars : (if false then "true" else "false").toList ++ rest =
        'f' :: ['a', 'l', 's', 'e'] ++ rest := by simp
    rw [hchars] at hread ⊢
    exact .scalar rfl hread (List.suffix_append _ _).length_le (next_scalar hs _) hrest
  | true =>
    have hchars : (if true then "true" else "false").toList ++ rest =
        't' :: ['r', 'u', 'e'] ++ rest := by simp
    rw [hchars] at hread ⊢
    exact .scalar rfl hread (List.suffix_append _ _).length_le (next_scalar hs _) hrest

/-! ## Lists and objects -/

theorem toList_join_cons (separator part : String) (parts : List String) :
    (join separator (part :: parts)).toList =
      part.toList ++ parts.flatMap fun p => separator.toList ++ p.toList := by
  unfold join
  rw [String.toList_ofList, List.map_cons]
  induction parts generalizing part with
  | nil => simp
  | cons next parts ih =>
    rw [List.map_cons, List.intercalate_cons_cons, ih, List.flatMap_cons]
    simp

theorem prettyItems_eq_map (level : Nat) (items : List Value) :
    prettyItems level items = items.map (prettyAt level) := by
  induction items with
  | nil => rfl
  | cons v items ih => rw [prettyItems, ih, List.map_cons]

/-- A field on a line of its own. -/
def prettyField (level : Nat) (entry : String × Value) : String :=
  writtenText entry.1 ++ ": " ++ prettyAt level entry.2

theorem prettyFields_eq_map (level : Nat) (entries : List (String × Value)) :
    prettyFields level (entries.map fun entry => field entry.1 entry.2) =
      entries.map (prettyField level) := by
  induction entries with
  | nil => rfl
  | cons entry entries ih =>
    rw [List.map_cons, List.map_cons, field, prettyFields, ih]
    rfl

/-- A new key is stored at the end. -/
theorem put_of_fresh {entries : List (String × Value)} {name : String}
    (h : name ∉ entries.map Prod.fst) (v : Value) :
    Fields.put (.text name) v (entries.map fun entry => field entry.1 entry.2) =
      (entries ++ [(name, v)]).map fun entry => field entry.1 entry.2 := by
  induction entries with
  | nil => rfl
  | cons entry entries ih =>
    rw [List.map_cons, List.mem_cons, not_or] at h
    have hne : ¬(Key.text entry.1).same (.text name) = true := by
      simpa [Key.same] using fun heq : entry.1 = name => h.1 heq.symm
    rw [List.map_cons, field, Fields.put, if_neg hne, ih h.2]
    rfl

/-- The value is read wherever one may come, whatever follows it. -/
def IsRead (v : Value) : Prop :=
  ∀ (level : Nat) (rest : List Char) (s last : State), TakesValue s → EndsNumber rest →
    Run rest (.complete s.pending v) last → Run ((prettyAt level v).toList ++ rest) s last

/-- The parts that follow the first one between brackets, and the closing bracket. -/
def moreParts (level : Nat) (parts : List String) (closing : Char) (rest : List Char) : List Char :=
  (parts.flatMap fun p => ("," ++ newLine (level + 1)).toList ++ p.toList) ++
    ((newLine level).toList ++ closing :: rest)

theorem moreParts_cons (level : Nat) (part : String) (parts : List String) (closing : Char)
    (rest : List Char) :
    moreParts level (part :: parts) closing rest =
      ',' :: ((newLine (level + 1)).toList ++
        (part.toList ++ moreParts level parts closing rest)) := by
  simp [moreParts]

/-- A number ends where more parts or the closing bracket follow. -/
theorem endsNumber_moreParts (level : Nat) (parts : List String) (closing : Char)
    (rest : List Char) : EndsNumber (moreParts level parts closing rest) := by
  have hhead : ∃ c ∈ [',', '\n'], ∃ cs, moreParts level parts closing rest = c :: cs := by
    cases parts with
    | nil => exact ⟨'\n', by simp, _, by simp [moreParts, newLine]; rfl⟩
    | cons part parts => exact ⟨',', by simp, _, moreParts_cons level part parts closing rest⟩
  obtain ⟨c, hc, cs, heq⟩ := hhead
  intro x hx
  rw [heq] at hx
  cases hx
  simp only [List.mem_cons, List.not_mem_nil, or_false] at hc
  rcases hc with rfl | rfl
  · decide
  · decide

theorem toList_bracketed (opening closing : Char) (level : Nat) (part : String)
    (parts : List String) (rest : List Char) :
    (bracketed (String.singleton opening) (String.singleton closing) level
        (part :: parts)).toList ++ rest =
      opening :: ((newLine (level + 1)).toList ++
        (part.toList ++ moreParts level parts closing rest)) := by
  simp [bracketed, toList_join_cons, moreParts]

section Lists

variable {level : Nat} {pending : List Open} {rest : List Char} {last : State}

/-- After an item, the other items of a list are read in turn. -/
theorem run_moreItems {items : List Value} (hitems : ∀ v ∈ items, IsRead v) {before : List Value}
    (hrest : Run rest (.complete pending (.list (before.reverse ++ items))) last) :
    Run (moreParts level (items.map (prettyAt (level + 1))) ']' rest)
      ⟨.list before :: pending, .itemEnd, .null⟩ last := by
  induction items generalizing before with
  | nil =>
    rw [List.append_nil] at hrest
    exact run_newLine level (.mark rfl rfl (fun _ => rfl) hrest)
  | cons v items ih =>
    rw [List.forall_mem_cons] at hitems
    have hmore : Run (moreParts level (items.map (prettyAt (level + 1))) ']' rest)
        ⟨.list (v :: before) :: pending, .itemEnd, .null⟩ last :=
      ih hitems.2 (by simpa using hrest)
    rw [List.map_cons, moreParts_cons]
    refine .mark rfl rfl (fun _ => rfl) (run_newLine (level + 1) ?_)
    exact hitems.1 (level + 1) _ _ last (Or.inl rfl) (endsNumber_moreParts _ _ _ _) hmore

theorem isRead_list {items : List Value} (hitems : ∀ v ∈ items, IsRead v) :
    IsRead (.list items) := by
  intro level rest s last hs _ hrest
  cases items with
  | nil =>
    show Run ("[]".toList ++ rest) s last
    have hchars : "[]".toList ++ rest = '[' :: ']' :: rest := by simp
    rw [hchars]
    exact .mark rfl rfl (next_openList hs) (.mark rfl rfl (fun _ => rfl) hrest)
  | cons v items =>
    rw [List.forall_mem_cons] at hitems
    have hmore : Run (moreParts level (items.map (prettyAt (level + 1))) ']' rest)
        ⟨.list [v] :: s.pending, .itemEnd, .null⟩ last := run_moreItems hitems.2 hrest
    have hpretty : prettyAt level (.list (v :: items)) =
        bracketed (String.singleton '[') (String.singleton ']') level
          (prettyAt (level + 1) v :: items.map (prettyAt (level + 1))) := by
      rw [prettyAt, prettyItems_eq_map]
      rfl
    rw [hpretty, toList_bracketed]
    refine .mark rfl rfl (next_openList hs) (run_newLine (level + 1) ?_)
    exact hitems.1 (level + 1) _ _ last (Or.inr rfl) (endsNumber_moreParts _ _ _ _) hmore

/-- Where a name is expected, a field is read and stored. -/
theorem run_field {entry : String × Value} (hvalue : IsRead entry.2) {fields : Fields}
    {old : String} {expected : Expected} (hexpected : expected = .name ∨ expected = .nameOrClose)
    (hends : EndsNumber rest)
    (hrest : Run rest ⟨.object (fields.put (.text entry.1) entry.2) entry.1 :: pending, .fieldEnd,
      .null⟩ last) :
    Run ((prettyField level entry).toList ++ rest) ⟨.object fields old :: pending, expected, .null⟩
      last := by
  have hchars : (prettyField level entry).toList ++ rest = (writtenText entry.1).toList ++
      (':' :: ' ' :: ((prettyAt level entry.2).toList ++ rest)) := by
    simp [prettyField]
  have hname : ∀ offset, State.next ⟨.object fields old :: pending, expected, .null⟩
      ⟨offset, .text entry.1⟩ = .ok ⟨.object fields entry.1 :: pending, .colon, .null⟩ := by
    intro offset
    rcases hexpected with rfl | rfl
    · rfl
    · rfl
  rw [hchars]
  refine run_writtenText entry.1 hname (.mark rfl rfl (fun _ => rfl) (.space rfl ?_))
  exact hvalue level rest _ last (Or.inl rfl) hends hrest

/-- After a field, the other fields of an object are read in turn. -/
theorem run_moreFields {entries before : List (String × Value)} {old : String}
    (hvalues : ∀ entry ∈ entries, IsRead entry.2)
    (hnames : ((before ++ entries).map Prod.fst).Nodup)
    (hrest : Run rest (.complete pending
      (.object ((before ++ entries).map fun entry => field entry.1 entry.2))) last) :
    Run (moreParts level (entries.map (prettyField (level + 1))) '\x7d' rest)
      ⟨.object (before.map fun entry => field entry.1 entry.2) old :: pending, .fieldEnd, .null⟩
      last := by
  induction entries generalizing before old with
  | nil =>
    rw [List.append_nil] at hrest
    exact run_newLine level (.mark rfl rfl (fun _ => rfl) hrest)
  | cons entry entries ih =>
    rw [List.forall_mem_cons] at hvalues
    have hsplit : before ++ entry :: entries = (before ++ [entry]) ++ entries := by simp
    have hfresh : entry.1 ∉ before.map Prod.fst := by
      rw [List.map_append, List.map_cons] at hnames
      exact fun hmem => List.disjoint_of_nodup_append hnames hmem List.mem_cons_self
    rw [hsplit] at hnames hrest
    have hmore : Run (moreParts level (entries.map (prettyField (level + 1))) '\x7d' rest)
        ⟨.object ((before ++ [entry]).map fun entry => field entry.1 entry.2) entry.1 :: pending,
          .fieldEnd, .null⟩ last := ih hvalues.2 hnames hrest
    rw [← put_of_fresh hfresh] at hmore
    rw [List.map_cons, moreParts_cons]
    refine .mark rfl rfl (fun _ => rfl) (run_newLine (level + 1) ?_)
    exact run_field hvalues.1 (Or.inl rfl) (endsNumber_moreParts _ _ _ _) hmore

theorem isRead_object {entries : List (String × Value)} (hnames : (entries.map Prod.fst).Nodup)
    (hvalues : ∀ entry ∈ entries, IsRead entry.2) :
    IsRead (.object (entries.map fun entry => field entry.1 entry.2)) := by
  intro level rest s last hs _ hrest
  cases entries with
  | nil =>
    show Run ("\x7b\x7d".toList ++ rest) s last
    have hchars : "\x7b\x7d".toList ++ rest = '\x7b' :: '\x7d' :: rest := by simp
    rw [hchars]
    exact .mark rfl rfl (next_openObject hs) (.mark rfl rfl (fun _ => rfl) hrest)
  | cons entry entries =>
    rw [List.forall_mem_cons] at hvalues
    have hmore : Run (moreParts level (entries.map (prettyField (level + 1))) '\x7d' rest)
        ⟨.object ([entry].map fun entry => field entry.1 entry.2) entry.1 :: s.pending, .fieldEnd,
          .null⟩ last := run_moreFields hvalues.2 hnames hrest
    have hpretty : prettyAt level (.object ((entry :: entries).map fun entry =>
        field entry.1 entry.2)) =
        bracketed (String.singleton '\x7b') (String.singleton '\x7d') level
          (prettyField (level + 1) entry :: entries.map (prettyField (level + 1))) := by
      rw [List.map_cons, field, prettyAt, prettyFields_eq_map]
      rfl
    rw [hpretty, toList_bracketed]
    refine .mark rfl rfl (next_openObject hs) (run_newLine (level + 1) ?_)
    exact run_field hvalues.1 (Or.inr rfl) (endsNumber_moreParts _ _ _ _) hmore

end Lists

/-! ## Whole texts -/

/-- **Every value that is kept is read wherever one may come.** -/
theorem isRead_of_isKept {v : Value} (h : IsKept v) : IsRead v := by
  induction h with
  | null => exact fun _ _ _ _ hs _ hrest => run_null hs hrest
  | bool b => exact fun _ _ _ _ hs _ hrest => run_bool b hs hrest
  | int hn => exact fun _ _ _ _ hs hends hrest => run_int hn hs hends hrest
  | text s => exact fun _ _ _ _ hs _ hrest => run_writtenText s (next_text hs s) hrest
  | list _ ih => exact isRead_list ih
  | object hnames _ ih => exact isRead_object hnames ih

/-- A text that begins with a byte order mark has no run. -/
theorem not_run_byteOrderMark (cs : List Char) (s last : State) : ¬Run ('\ufeff' :: cs) s last := by
  intro h
  cases h with
  | space hc _ => cases hc
  | mark _ htoken _ _ => cases htoken
  | scalar _ hread _ _ _ =>
    have hnone : readScalar? 0 ('\ufeff' :: cs) = none := by
      simp [readScalar?, words, List.isPrefixOf, readNumber?, splitWhole]
    cases hnone.symm.trans (hread 0)

/-- **A value is read back from what is written of it.** -/
theorem read_pretty {v : Value} (h : IsKept v) : read (pretty v) = .ok v := by
  have hrun : Run ((pretty v).toList ++ []) ⟨[], .value, .null⟩ ⟨[], .nothing, v⟩ :=
    isRead_of_isKept h 0 [] _ _ (Or.inl rfl) (fun c hc => by cases hc) (.done _)
  rw [List.append_nil] at hrun
  have hmark : ¬(pretty v).toList.head? = some '\ufeff' := by
    intro hhead
    obtain ⟨cs, hcs⟩ := List.head?_eq_some_iff.mp hhead
    rw [hcs] at hrun
    exact not_run_byteOrderMark cs _ _ hrun
  have hfold := foldlM_of_run hrun (Nat.le_refl _) 0
  unfold read
  simp only [if_neg hmark]
  show ((tokens (pretty v).toList).foldlM State.next ⟨[], .value, .null⟩ >>= _) = _
  unfold tokens
  rw [hfold]
  rfl

end SeamLint.Json
