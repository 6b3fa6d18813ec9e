import Mathlib.Data.Finset.Lattice.Lemmas
import Mathlib.Data.List.DropRight
import SeamLint.Proofs.OptionLayers

set_option autoImplicit false

/-! # Lists of symbols as texts

A list of symbols is written as one text, with commas or semicolons between the entries. Blanks
around an entry and entries that are blank count for nothing, so a list can be written in many ways.
`IsJoined` tells all of them, without the splitting and trimming that reads them. Reading gives the
entries back (`symbolList_of_isJoined`), and every text is a way of writing the list that is read
from it, whose entries are all proper ones (`isJoined_symbolList`).
-/

namespace SeamLint.Text

/-! ## What trimming leaves -/

/-- What trimming leaves begins with a character that is no blank. -/
theorem isBlank_of_mem_head?_trim {text : List Char} {c : Char} (h : c ∈ (trim text).head?) :
    isBlank c = false := by
  obtain ⟨rest, hrest⟩ : trim text <+: text.dropWhile isBlank := List.rdropWhile_prefix isBlank _
  have hhead : (text.dropWhile isBlank).head? = some c := by
    rw [← hrest, List.head?_append, Option.mem_def.mp h]
    rfl
  have hne : text.dropWhile isBlank ≠ [] := by
    intro hnil
    rw [hnil] at hhead
    cases hhead
  rw [← (List.head_eq_iff_head?_eq_some hne).mpr hhead]
  exact List.head_dropWhile_not isBlank hne

theorem isBlank_of_mem_getLast?_trim {text : List Char} {c : Char} (h : c ∈ (trim text).getLast?) :
    isBlank c = false := by
  have hne : trim text ≠ [] := by
    rintro hnil
    rw [hnil] at h
    cases h
  obtain rfl : (trim text).getLast hne = c :=
    Option.some.inj ((List.getLast?_eq_some_getLast hne).symm.trans h)
  exact Bool.eq_false_iff.mpr (List.rdropWhile_last_not isBlank _ hne)

end SeamLint.Text

namespace SeamLint.Settings

open SeamLint.Text

/-! ## Entries and how they are joined -/

/-- A text that can be an entry: it is not empty, has no separator in it and no blank at either
end. -/
structure IsSymbol (entry : String) : Prop where
  nonempty : entry ≠ ""
  noComma : ',' ∉ entry.toList
  noSemicolon : ';' ∉ entry.toList
  noBlankBefore : ∀ c ∈ entry.toList.head?, isBlank c = false
  noBlankAfter : ∀ c ∈ entry.toList.getLast?, isBlank c = false

/-- The texts that can be put between two lists. -/
def IsSeparatorText (text : String) : Prop := text = "," ∨ text = ";"

/-- The text consists of blanks, or is empty. -/
def IsBlankText (text : String) : Prop := ∀ c ∈ text.toList, isBlank c = true

/-- The text joins the entries, in this order, with either separator between them, any blanks around
each of them, and any number of empty entries. -/
inductive IsJoined : List String → String → Prop
  | empty {blanks : String} (hblanks : IsBlankText blanks) : IsJoined [] blanks
  | entry {left right : String} (entry : String) (hleft : IsBlankText left)
      (hright : IsBlankText right) : IsJoined [entry] (left ++ entry ++ right)
  | append {entries entries' : List String} {text text' separator : String}
      (h : IsJoined entries text) (hseparator : IsSeparatorText separator)
      (h' : IsJoined entries' text') : IsJoined (entries ++ entries') (text ++ separator ++ text')

/-! ## Reading -/

theorem isSeparator_iff {c : Char} : isSeparator c = true ↔ c = ',' ∨ c = ';' := by
  simp [isSeparator]

theorem IsSymbol.isSeparator_eq_false {entry : String} (h : IsSymbol entry) {c : Char}
    (hc : c ∈ entry.toList) : isSeparator c = false := by
  rw [Bool.eq_false_iff, Ne, isSeparator_iff]
  rintro (rfl | rfl)
  · exact h.noComma hc
  · exact h.noSemicolon hc

/-- A text that is a separator is one character. -/
theorem exists_char_of_isSeparatorText {text : String} (h : IsSeparatorText text) :
    ∃ c, isSeparator c = true ∧ text.toList = [c] := by
  rcases h with rfl | rfl
  · exact ⟨',', rfl, rfl⟩
  · exact ⟨';', rfl, rfl⟩

/-- **Separated texts are read one by one.** -/
theorem symbolList_append {separator : String} (h : IsSeparatorText separator) (a b : String) :
    symbolList (a ++ separator ++ b) = symbolList a ++ symbolList b := by
  obtain ⟨c, hc, hlist⟩ := exists_char_of_isSeparatorText h
  rw [symbolList_eq, String.toList_append, String.toList_append, hlist, List.append_assoc,
    List.singleton_append, entryLists_append_cons hc, List.map_append]
  rfl

theorem symbolList_of_isBlankText {text : String} (h : IsBlankText text) :
    symbolList text = [] := by
  rw [symbolList_eq, entryLists_of_blank h]
  rfl

/-- A text without separators has one entry, or none if trimming leaves nothing. -/
theorem entryLists_of_noSeparator {text : List Char} (h : ∀ c ∈ text, isSeparator c = false) :
    entryLists text = [trim text].filter fun entry => !entry.isEmpty := by
  rw [entryLists, Number.pieces_of_all_not h]
  rfl

theorem symbolList_entry {left entry right : String} (hleft : IsBlankText left)
    (hright : IsBlankText right) (h : IsSymbol entry) :
    symbolList (left ++ entry ++ right) = [entry] := by
  have hne : entry.toList ≠ [] := fun hnil => h.nonempty (String.toList_eq_nil_iff.mp hnil)
  have hlist : (left ++ entry ++ right).toList = left.toList ++ (entry.toList ++ right.toList) := by
    simp
  have hseparator : ∀ c ∈ (left ++ entry ++ right).toList, isSeparator c = false := by
    intro c hc
    rw [hlist, List.mem_append, List.mem_append] at hc
    rcases hc with hc | hc | hc
    · exact isSeparator_of_isBlank (hleft c hc)
    · exact h.isSeparator_eq_false hc
    · exact isSeparator_of_isBlank (hright c hc)
  rw [symbolList_eq, entryLists_of_noSeparator hseparator, hlist,
    Number.trim_eq_of_ends hleft hright h.noBlankBefore h.noBlankAfter hne]
  simp [h.nonempty]

/-- **Joined entries are read back**, in their order. -/
theorem symbolList_of_isJoined {entries : List String} {text : String} (h : IsJoined entries text)
    (hentries : ∀ entry ∈ entries, IsSymbol entry) : symbolList text = entries := by
  induction h with
  | empty hblanks => exact symbolList_of_isBlankText hblanks
  | entry entry hleft hright => exact symbolList_entry hleft hright (hentries entry (by simp))
  | append h hseparator h' ih ih' =>
      obtain ⟨hfirst, hsecond⟩ := List.forall_mem_append.mp hentries
      rw [symbolList_append hseparator, ih hfirst, ih' hsecond]

/-! ## Every text is read -/

/-- A text without separators is blank, or an entry with blanks around it. -/
theorem isJoined_of_noSeparator (text : String) (h : ∀ c ∈ text.toList, isSeparator c = false) :
    IsJoined (symbolList text) text ∧ ∀ entry ∈ symbolList text, IsSymbol entry := by
  obtain ⟨left, right, htext, hleft, hright⟩ := Number.exists_trim_eq text.toList
  have hlist := entryLists_of_noSeparator h
  by_cases hnil : trim text.toList = []
  · have hblank : IsBlankText text := by
      intro c hc
      rw [htext, hnil, List.nil_append, List.mem_append] at hc
      exact hc.elim (hleft c) (hright c)
    rw [symbolList_of_isBlankText hblank]
    exact ⟨.empty hblank, by simp⟩
  · have hsymbol : IsSymbol (String.ofList (trim text.toList)) := by
      have hmem {c : Char} (hc : c ∈ trim text.toList) : isSeparator c = false :=
        h c (by rw [htext]; simp [hc])
      constructor
      · simpa using hnil
      · exact fun hc => absurd (hmem (by simpa using hc)) (by decide)
      · exact fun hc => absurd (hmem (by simpa using hc)) (by decide)
      · exact fun c hc => isBlank_of_mem_head?_trim (by simpa using hc)
      · exact fun c hc => isBlank_of_mem_getLast?_trim (by simpa using hc)
    have hread : symbolList text = [String.ofList (trim text.toList)] := by
      rw [symbolList_eq, hlist]
      simp [hnil]
    have hparts : text = String.ofList left ++ String.ofList (trim text.toList) ++
        String.ofList right := by
      refine String.toList_injective ?_
      simpa using htext
    rw [hread]
    refine ⟨?_, by simpa using hsymbol⟩
    nth_rewrite 2 [hparts]
    exact .entry _ (by simpa [IsBlankText] using hleft) (by simpa [IsBlankText] using hright)

/-- **Every text joins the entries that are read from it**, and they are proper entries. -/
theorem isJoined_symbolList (text : String) :
    IsJoined (symbolList text) text ∧ ∀ entry ∈ symbolList text, IsSymbol entry := by
  -- by the length of the text, which is cut at its first separator
  induction hlength : text.toList.length using Nat.strong_induction_on generalizing text with
  | _ length ih =>
      cases hfind : text.toList.find? isSeparator with
      | none =>
          refine isJoined_of_noSeparator text fun c hc => ?_
          simpa using List.find?_eq_none.mp hfind c hc
      | some c =>
          obtain ⟨hc, before, after, htext, hbefore⟩ := List.find?_eq_some_iff_append.mp hfind
          have hparts :
              text = String.ofList before ++ String.singleton c ++ String.ofList after := by
            refine String.toList_injective ?_
            simpa using htext
          have hseparator : IsSeparatorText (String.singleton c) := by
            rcases isSeparator_iff.mp hc with rfl | rfl
            · exact Or.inl rfl
            · exact Or.inr rfl
          have hfirst := isJoined_of_noSeparator (String.ofList before)
            fun c hc => by simpa using hbefore c (by simpa using hc)
          have hrest := ih after.length (by rw [← hlength, htext]; simp; omega)
            (String.ofList after) (by simp)
          rw [hparts, symbolList_append hseparator]
          exact ⟨.append hfirst.1 hseparator hrest.1,
            List.forall_mem_append.mpr ⟨hfirst.2, hrest.2⟩⟩

/-- **Lists are read without loss.** Two texts with a separator between them list what the two list.
Every entry that is listed is proper: not empty, without separators, and without blanks at its ends.
And for every finite set of proper entries, any text that joins them, in any order, with either
separator, with any blanks around them and any number of empty entries, lists that set. -/
theorem lists_read_without_loss :
    (∀ a b separator, IsSeparatorText separator →
      (symbolList (a ++ separator ++ b)).toFinset =
        (symbolList a).toFinset ∪ (symbolList b).toFinset) ∧
    (∀ text, ∀ entry ∈ symbolList text, IsSymbol entry) ∧
    ∀ (S : Finset String), (∀ entry ∈ S, IsSymbol entry) →
      ∀ entries text, entries.toFinset = S → IsJoined entries text →
        (symbolList text).toFinset = S := by
  refine ⟨fun a b separator h => ?_, fun text => (isJoined_symbolList text).2, ?_⟩
  · rw [symbolList_append h, List.toFinset_append]
  · rintro S hS entries text rfl hjoined
    have hentries : ∀ entry ∈ entries, IsSymbol entry :=
      fun entry hentry => hS entry (List.mem_toFinset.mpr hentry)
    rw [symbolList_of_isJoined hjoined hentries]

/-- Two entries with a wide blank, a tab and empty entries around them. -/
theorem lists_read_without_loss_blanks :
    IsJoined ["M:App.Clock.Now", "T:App.Clock"] "\u3000M:App.Clock.Now\t;; T:App.Clock, " ∧
    (symbolList "\u3000M:App.Clock.Now\t;; T:App.Clock, ").toFinset =
      {"T:App.Clock", "M:App.Clock.Now"} := by
  have hblank : ∀ text ∈ ["", " ", "\t", "\u3000"], IsBlankText text := by
    simp [IsBlankText, isBlank]
  have hfirst : IsJoined ["M:App.Clock.Now"] ("\u3000" ++ "M:App.Clock.Now" ++ "\t") :=
    .entry _ (hblank _ (by simp)) (hblank _ (by simp))
  have hsecond : IsJoined ["T:App.Clock"] (" " ++ "T:App.Clock" ++ "") :=
    .entry _ (hblank _ (by simp)) (hblank _ (by simp))
  have hempty (text : String) (h : text ∈ ["", " ", "\t", "\u3000"]) : IsJoined [] text :=
    .empty (hblank text h)
  have hjoined : IsJoined ["M:App.Clock.Now", "T:App.Clock"]
      "\u3000M:App.Clock.Now\t;; T:App.Clock, " :=
    .append (.append (.append hfirst (Or.inr rfl) (hempty "" (by simp))) (Or.inr rfl) hsecond)
      (Or.inl rfl) (hempty " " (by simp))
  have hsymbols : ∀ entry ∈ ({"T:App.Clock", "M:App.Clock.Now"} : Finset String),
      IsSymbol entry := by
    intro entry hentry
    rcases Finset.mem_insert.mp hentry with rfl | hentry
    · constructor <;> simp [isBlank]
    · rw [Finset.mem_singleton.mp hentry]
      constructor <;> simp [isBlank]
  exact ⟨hjoined, lists_read_without_loss.2.2 _ hsymbols _ _ (by simp [Finset.pair_comm]) hjoined⟩

end SeamLint.Settings
