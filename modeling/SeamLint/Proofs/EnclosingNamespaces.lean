import Mathlib.Data.List.Basic
import Mathlib.Data.List.TakeWhile
import SeamLint.Settings.RuleSettings

set_option autoImplicit false

/-! # Namespaces inside excluded ones

Whether a namespace is excluded is found by looking outward: the name itself, what stands before its
last dot, and so on, until a name is listed or nothing is left. The search is bounded by the length
of the name. `LooksOutward` is the search without a bound. It always comes to an answer, the one
that the bounded search gives (`looksOutward_isListedAround`), and the answer is yes if and only if
an entry that is not empty covers the name (`LooksOutward.covered_iff`).
-/

namespace SeamLint.Text

/-! ## Before the last dot -/

theorem beforeLast?_append_cons {c : Char} {before last : List Char} (h : c ∉ last) :
    beforeLast? c (before ++ c :: last) = some before := by
  have hstop : ∀ x ∈ last.reverse, (x != c) = true := by
    intro x hx
    have hne : x ≠ c := fun heq => h (heq ▸ List.mem_reverse.mp hx)
    simpa using hne
  have hreverse : (before ++ c :: last).reverse = last.reverse ++ c :: before.reverse := by simp
  rw [beforeLast?, hreverse, List.dropWhile_append_of_pos hstop]
  simp

theorem beforeLast?_of_not_mem {c : Char} {s : List Char} (h : c ∉ s) : beforeLast? c s = none := by
  have hdrop : s.reverse.dropWhile (· != c) = [] := by
    refine List.dropWhile_eq_nil_iff.mpr fun x hx => ?_
    have hne : x ≠ c := fun heq => h (heq ▸ List.mem_reverse.mp hx)
    simpa using hne
  rw [beforeLast?, hdrop]

/-- Either there is no `c`, or there is a last one and something before it. -/
theorem beforeLast?_cases (c : Char) (s : List Char) :
    (c ∉ s ∧ beforeLast? c s = none) ∨
    ∃ before last, c ∉ last ∧ s = before ++ c :: last ∧ beforeLast? c s = some before := by
  by_cases hmem : c ∈ s
  · obtain ⟨last, before, hreverse, hlast⟩ :=
      List.eq_append_cons_of_mem (List.mem_reverse.mpr hmem)
    have hs : s = before.reverse ++ c :: last.reverse := by
      rw [← List.reverse_inj, hreverse]
      simp
    have hlast' : c ∉ last.reverse := by simpa using hlast
    refine Or.inr ⟨before.reverse, last.reverse, hlast', hs, ?_⟩
    rw [hs, beforeLast?_append_cons hlast']
  · exact Or.inl ⟨hmem, beforeLast?_of_not_mem hmem⟩

end SeamLint.Text

namespace SeamLint.Settings

open SeamLint.Text

/-! ## Entries that cover a name -/

/-- The entry is the name, or the name begins with the entry and a dot. -/
def Covers (entry name : List Char) : Prop := name = entry ∨ entry ++ ['.'] <+: name

theorem not_covers_nil {entry : List Char} (h : entry ≠ []) : ¬Covers entry [] := by
  rintro (hnil | hstart)
  · exact h hnil.symm
  · simpa using hstart.length_le

/-- A name without a dot is covered by nothing but itself. -/
theorem covers_iff_of_noDot {entry name : List Char} (h : '.' ∉ name) :
    Covers entry name ↔ name = entry := by
  refine or_iff_left fun hstart => h (hstart.subset ?_)
  simp

/-- **A name is covered by itself and by what covers the part before its last dot.** -/
theorem covers_append_dot_iff {entry outer last : List Char} (h : '.' ∉ last) :
    Covers entry (outer ++ '.' :: last) ↔ outer ++ '.' :: last = entry ∨ Covers entry outer := by
  refine or_congr_right ?_
  constructor
  · rintro ⟨rest, hrest⟩
    rw [List.append_assoc, List.singleton_append] at hrest
    -- the two ways to cut the name at a dot: the second is at the last dot, or after the first
    rcases List.append_eq_append_iff.mp hrest with ⟨more, houter, hdot⟩ | ⟨more, rfl, hdot⟩
    · cases more with
      | nil => exact Or.inl (by simpa using houter)
      | cons c more =>
          obtain ⟨rfl, -⟩ := List.cons.inj hdot
          exact Or.inr ⟨more, by simp [houter]⟩
    · cases more with
      | nil => exact Or.inl (by simp)
      | cons c more =>
          obtain ⟨-, hlast⟩ := List.cons.inj hdot
          exact absurd (by simp [hlast]) h
  · rintro (rfl | hstart)
    · exact ⟨last, by simp⟩
    · exact hstart.trans (List.prefix_append outer _)

/-! ## Looking outward -/

/-- The search for a listed name, from `name` outward, ends with the answer. -/
inductive LooksOutward (listed : List String) : List Char → Bool → Prop
  | globally : LooksOutward listed [] false
  | found {name : List Char} (hne : name ≠ []) (hlisted : String.ofList name ∈ listed) :
      LooksOutward listed name true
  | outermost {name : List Char} (hne : name ≠ []) (hlisted : String.ofList name ∉ listed)
      (hlast : beforeLast? '.' name = none) : LooksOutward listed name false
  | outward {name outer : List Char} {answer : Bool} (hne : name ≠ [])
      (hlisted : String.ofList name ∉ listed) (houter : beforeLast? '.' name = some outer)
      (h : LooksOutward listed outer answer) : LooksOutward listed name answer

/-- **The search ends**, within as many steps as the name has characters, because what stands before
a dot is shorter. -/
theorem looksOutward_isListedAround (listed : List String) {steps : Nat} {name : List Char}
    (hsteps : name.length ≤ steps) :
    LooksOutward listed name (RuleSettings.isListedAround listed steps name) := by
  induction steps generalizing name with
  | zero =>
      obtain rfl : name = [] := List.length_eq_zero_iff.mp (Nat.le_zero.mp hsteps)
      exact .globally
  | succ steps ih =>
      by_cases hne : name = []
      · subst hne
        exact .globally
      have hopen : name.isEmpty = false := by simpa using hne
      rw [RuleSettings.isListedAround, hopen, Bool.not_false, Bool.true_and]
      by_cases hlisted : String.ofList name ∈ listed
      · rw [List.contains_iff_mem.mpr hlisted, Bool.true_or]
        exact .found hne hlisted
      · rw [Bool.eq_false_iff.mpr fun h => hlisted (List.contains_iff_mem.mp h), Bool.false_or]
        rcases beforeLast?_cases '.' name with ⟨-, hnone⟩ | ⟨outer, last, -, hname, hsome⟩
        · rw [hnone]
          exact .outermost hne hlisted hnone
        · have hlength : outer.length ≤ steps := by
            rw [hname, List.length_append, List.length_cons] at hsteps
            omega
          rw [hsome]
          exact .outward hne hlisted hsome (ih hlength)

/-- **The answer is yes if and only if an entry covers the name.** -/
theorem LooksOutward.covered_iff {listed : List String} {name : List Char} {answer : Bool}
    (h : LooksOutward listed name answer) :
    answer = true ↔ ∃ entry ∈ listed, entry ≠ "" ∧ Covers entry.toList name := by
  induction h with
  | globally =>
      refine iff_of_false Bool.false_ne_true ?_
      rintro ⟨entry, -, hne, hcovers⟩
      exact not_covers_nil (by simpa using hne) hcovers
  | found hne hlisted =>
      exact iff_of_true rfl ⟨_, hlisted, by simpa using hne, Or.inl (by simp)⟩
  | @outermost name hne hlisted hlast =>
      refine iff_of_false Bool.false_ne_true ?_
      rintro ⟨entry, hentry, -, hcovers⟩
      rcases beforeLast?_cases '.' name with ⟨hdot, -⟩ | ⟨outer, last, -, -, hsome⟩
      · rw [covers_iff_of_noDot hdot] at hcovers
        exact hlisted (by simpa [hcovers] using hentry)
      · rw [hlast] at hsome
        cases hsome
  | @outward name outer answer hne hlisted houter h ih =>
      rcases beforeLast?_cases '.' name with ⟨-, hnone⟩ | ⟨outer', last, hlast, hname, hsome⟩
      · rw [houter] at hnone
        cases hnone
      · obtain rfl : outer = outer' := Option.some.inj (houter.symm.trans hsome)
        rw [ih]
        refine exists_congr fun entry => and_congr_right fun hentry => and_congr_right fun _ => ?_
        rw [hname, covers_append_dot_iff hlast, ← hname]
        refine (or_iff_right fun heq => hlisted ?_).symm
        simpa [heq] using hentry

/-! ## Excluded namespaces -/

theorem covers_iff {entry name : String} :
    Covers entry.toList name.toList ↔ name = entry ∨ (entry ++ ".").toList <+: name.toList := by
  rw [Covers, String.toList_append, String.toList_inj]
  rfl

theorem isNamespaceExcluded_iff {s : RuleSettings} {name : String} :
    s.isNamespaceExcluded name = true ↔ ∃ entry ∈ s.excludedNamespaces, entry ≠ "" ∧
      (name = entry ∨ (entry ++ ".").toList <+: name.toList) := by
  have hlooks := looksOutward_isListedAround s.excludedNamespaces (Nat.le_refl name.toList.length)
  simp only [← covers_iff]
  exact hlooks.covered_iff

/-- **A namespace is excluded if and only if it lies in a listed one.** For all settings and every
name, whatever dots are in it, the search outward ends, and its answer is whether some entry that is
not empty is the name or is followed by a dot in it. So an entry excludes the namespaces inside it,
it does not exclude one that merely begins with the same characters, and the global namespace is
never excluded. -/
theorem namespace_excluded_iff_inside (s : RuleSettings) :
    (∀ name, LooksOutward s.excludedNamespaces name.toList (s.isNamespaceExcluded name) ∧
      (s.isNamespaceExcluded name = true ↔ ∃ entry ∈ s.excludedNamespaces, entry ≠ "" ∧
        (name = entry ∨ (entry ++ ".").toList <+: name.toList))) ∧
    (∀ entry ∈ s.excludedNamespaces, entry ≠ "" →
      ∀ inner, s.isNamespaceExcluded (entry ++ "." ++ inner) = true) ∧
    (∀ entry c rest, s.excludedNamespaces = [entry] → c ≠ '.' →
      s.isNamespaceExcluded (entry ++ String.singleton c ++ rest) = false) ∧
    s.isNamespaceExcluded "" = false := by
  refine ⟨fun name => ⟨looksOutward_isListedAround _ (Nat.le_refl _), isNamespaceExcluded_iff⟩,
    fun entry hentry hne inner => ?_, fun entry c rest hentries hc => ?_, rfl⟩
  · refine isNamespaceExcluded_iff.mpr ⟨entry, hentry, hne, Or.inr ?_⟩
    rw [String.toList_append (s := entry ++ ".")]
    exact List.prefix_append _ _
  · rw [Bool.eq_false_iff, Ne, isNamespaceExcluded_iff, hentries]
    rintro ⟨entry', hmem, -, hcovers⟩
    obtain rfl := List.mem_singleton.mp hmem
    rcases hcovers with heq | hstart
    · have hlength := congrArg (·.toList.length) heq
      simp at hlength
    · -- after the entry the name goes on with another character
      simp [hc.symm] at hstart

/-- One excluded namespace, asked for one inside it, for itself, and for its neighbour. -/
theorem namespace_excluded_iff_inside_neighbour :
    let s : RuleSettings := { ruleId := "SEAM004", excludedNamespaces := ["Company.Internal"] }
    s.isNamespaceExcluded "Company.Internal.Tools..Io." = true ∧
    s.isNamespaceExcluded "Company.InternalTools" = false ∧
    LooksOutward s.excludedNamespaces ".Company".toList false := by
  intro s
  obtain ⟨hlooks, hinside, hneighbour, -⟩ := namespace_excluded_iff_inside s
  exact ⟨hinside "Company.Internal" (by decide) (by decide) "Tools..Io.",
    hneighbour "Company.Internal" 'T' "ools" rfl (by decide), (hlooks ".Company").1⟩

end SeamLint.Settings
