import Mathlib.Data.List.Basic
import SeamLint.Finding.Basic

set_option autoImplicit false

/-! # The order of findings

`Finding.compare` is a total preorder: it tells findings apart by path, span, rule and the
*texts* of their arguments, so a text argument `1` and a number argument `1` tie. Sorting
is stable, which makes a sorted list of findings a function of its tie classes
(`sortFindings_eq_of_ties`): two lists sort to the same list as soon as, for every finding,
they hold the findings that tie with it in the same order.
-/

namespace SeamLint.Finding

open SeamLint.Code

/-! ## A total preorder -/

theorem compareTexts_eq_compareLex (as bs : List String) :
    Text.compareTexts as bs = List.compareLex Ord.compare as bs := by
  induction as generalizing bs with
  | nil => cases bs <;> rfl
  | cons a as ih =>
      cases bs with
      | nil => rfl
      | cons b bs =>
          rw [List.compareLex_cons_cons, ← ih bs]
          rfl

/-- The order of findings, part by part. -/
theorem compare_eq_compareLex :
    Finding.compare =
      compareLex (compareOn path)
        (compareLex
          (compareLex (compareOn (·.span.startLine))
            (compareLex (compareOn (·.span.startColumn))
              (compareLex (compareOn (·.span.endLine)) (compareOn (·.span.endColumn)))))
          (compareLex (compareOn ruleId)
            (fun a b => List.compareLex Ord.compare
              (a.arguments.map Argument.shown) (b.arguments.map Argument.shown)))) := by
  funext a b
  simp only [Finding.compare, compareTexts_eq_compareLex]
  rfl

instance : Std.TransCmp (fun a b : Finding => List.compareLex Ord.compare
    (a.arguments.map Argument.shown) (b.arguments.map Argument.shown)) where
  eq_swap := Std.OrientedCmp.eq_swap
  isLE_trans := Std.TransCmp.isLE_trans

instance : Std.TransCmp Finding.compare := by
  rw [compare_eq_compareLex]
  infer_instance

theorem compare_swap (a b : Finding) : a.compare b = (b.compare a).swap :=
  Std.OrientedCmp.eq_swap

theorem precedes_trans (a b c : Finding) (hab : precedes a b = true)
    (hbc : precedes b c = true) : precedes a c = true :=
  Std.TransCmp.isLE_trans hab hbc

theorem precedes_total (a b : Finding) : (precedes a b || precedes b a) = true := by
  unfold precedes
  rw [compare_swap b a]
  cases a.compare b <;> rfl

theorem precedes_refl (a : Finding) : precedes a a = true := by
  simpa using precedes_total a a

/-! ## Ties -/

/-- The order does not tell the two findings apart. -/
def ties (a b : Finding) : Bool := precedes a b && precedes b a

theorem ties_iff_compare (a b : Finding) : ties a b = true ↔ a.compare b = .eq := by
  unfold ties precedes
  rw [compare_swap b a]
  cases a.compare b <;> decide

/-- **What the order looks at**: findings tie if they agree in path, span and rule and their
arguments are shown as the same texts. -/
theorem ties_iff (a b : Finding) :
    ties a b = true ↔ a.path = b.path ∧ a.span = b.span ∧ a.ruleId = b.ruleId ∧
      a.arguments.map Argument.shown = b.arguments.map Argument.shown := by
  rw [ties_iff_compare]
  simp only [Finding.compare, compareSpans, Ordering.then_eq_eq, compareTexts_eq_compareLex,
    Std.LawfulEqCmp.compare_eq_iff_eq]
  constructor
  · rintro ⟨hpath, ⟨hsl, hsc, hel, hec⟩, hrule, hargs⟩
    exact ⟨hpath, by cases ha : a.span; cases hb : b.span; simp_all, hrule, hargs⟩
  · rintro ⟨hpath, hspan, hrule, hargs⟩
    exact ⟨hpath, ⟨by rw [hspan], by rw [hspan], by rw [hspan], by rw [hspan]⟩, hrule, hargs⟩

theorem ties_refl (a : Finding) : ties a a = true := by
  simp [ties, precedes_refl]

theorem ties_comm (a b : Finding) : ties a b = ties b a := Bool.and_comm ..

theorem ties_trans {a b c : Finding} (hab : ties a b = true) (hbc : ties b c = true) :
    ties a c = true := by
  obtain ⟨hab, hba⟩ := Bool.and_eq_true_iff.mp hab
  obtain ⟨hbc, hcb⟩ := Bool.and_eq_true_iff.mp hbc
  exact Bool.and_eq_true_iff.mpr ⟨precedes_trans _ _ _ hab hbc, precedes_trans _ _ _ hcb hba⟩

theorem ruleId_eq_of_ties {a b : Finding} (h : ties a b = true) : a.ruleId = b.ruleId :=
  ((ties_iff a b).mp h).2.2.1

/-! ## Sorted lists -/

/-- Findings are listed in order. -/
abbrev Sorted (l : List Finding) : Prop := l.Pairwise fun a b => precedes a b = true

theorem sorted_sortFindings (l : List Finding) : Sorted (sortFindings l) :=
  List.pairwise_mergeSort precedes_trans precedes_total l

theorem sortFindings_perm (l : List Finding) : (sortFindings l).Perm l :=
  List.mergeSort_perm l precedes

/-- A list in which every two findings tie is sorted. -/
theorem sorted_filter_ties (a : Finding) (l : List Finding) : Sorted (l.filter (ties a)) := by
  refine List.pairwise_of_forall_mem_list fun b hb c hc => ?_
  have hab : ties a b = true := (List.mem_filter.mp hb).2
  have hac : ties a c = true := (List.mem_filter.mp hc).2
  have hbc : ties b c = true := ties_trans ((ties_comm b a).trans hab) hac
  exact (Bool.and_eq_true_iff.mp hbc).1

/-- **Stability**: sorting leaves the findings of each tie class in the order they had. -/
theorem filter_ties_sortFindings (a : Finding) (l : List Finding) :
    (sortFindings l).filter (ties a) = l.filter (ties a) := by
  have hsub : (l.filter (ties a)).Sublist (sortFindings l) :=
    List.sublist_mergeSort precedes_trans precedes_total (sorted_filter_ties a l)
      List.filter_sublist
  have hsub' : (l.filter (ties a)).Sublist ((sortFindings l).filter (ties a)) := by
    simpa using hsub.filter (ties a)
  have hlen := ((sortFindings_perm l).filter (ties a)).length_eq
  exact (hsub'.eq_of_length hlen.symm).symm

/-- The first finding of a sorted list precedes every finding that the list holds. -/
theorem precedes_of_mem_sorted {a b : Finding} {l : List Finding} (hl : Sorted (a :: l))
    (hb : b ∈ a :: l) : precedes a b = true := by
  rcases List.mem_cons.mp hb with rfl | hb
  · exact precedes_refl b
  · exact List.rel_of_pairwise_cons hl hb

/-- A finding stands in every list that has its tie class. -/
theorem mem_of_filter_ties_eq {a : Finding} {l₁ l₂ : List Finding} (ha : a ∈ l₁)
    (h : l₁.filter (ties a) = l₂.filter (ties a)) : a ∈ l₂ := by
  have hmem : a ∈ l₁.filter (ties a) := List.mem_filter.mpr ⟨ha, ties_refl a⟩
  rw [h] at hmem
  exact (List.mem_filter.mp hmem).1

/-- **A sorted list is determined by its tie classes.** -/
theorem eq_of_sorted_of_filter_ties_eq {l₁ l₂ : List Finding} (h₁ : Sorted l₁)
    (h₂ : Sorted l₂) (h : ∀ a, l₁.filter (ties a) = l₂.filter (ties a)) : l₁ = l₂ := by
  induction l₁ generalizing l₂ with
  | nil =>
      cases l₂ with
      | nil => rfl
      | cons b l₂ => exact absurd (mem_of_filter_ties_eq List.mem_cons_self (h b).symm) (by simp)
  | cons a l₁ ih =>
      cases l₂ with
      | nil => exact absurd (mem_of_filter_ties_eq List.mem_cons_self (h a)) (by simp)
      | cons b l₂ =>
          -- both heads are least, so they tie, and then they head the same class
          have hab : precedes a b = true :=
            precedes_of_mem_sorted h₁ (mem_of_filter_ties_eq List.mem_cons_self (h b).symm)
          have hba : precedes b a = true :=
            precedes_of_mem_sorted h₂ (mem_of_filter_ties_eq List.mem_cons_self (h a))
          have htie : ties a b = true := Bool.and_eq_true_iff.mpr ⟨hab, hba⟩
          have hhead := h a
          rw [List.filter_cons_of_pos (ties_refl a), List.filter_cons_of_pos htie] at hhead
          obtain rfl : a = b := (List.cons.inj hhead).1
          refine congrArg (a :: ·) (ih h₁.of_cons h₂.of_cons fun c => ?_)
          have hc := h c
          by_cases hca : ties c a = true
          · rw [List.filter_cons_of_pos hca, List.filter_cons_of_pos hca] at hc
            exact (List.cons.inj hc).2
          · rwa [List.filter_cons_of_neg hca, List.filter_cons_of_neg hca] at hc

/-- Lists with the same tie classes sort to the same list. -/
theorem sortFindings_eq_of_ties {l₁ l₂ : List Finding}
    (h : ∀ a, l₁.filter (ties a) = l₂.filter (ties a)) : sortFindings l₁ = sortFindings l₂ := by
  refine eq_of_sorted_of_filter_ties_eq (sorted_sortFindings l₁) (sorted_sortFindings l₂) ?_
  intro a
  rw [filter_ties_sortFindings, filter_ties_sortFindings, h a]

/-- Where ties are equal, sorting forgets the order of a list. -/
theorem sortFindings_eq_of_perm {l₁ l₂ : List Finding} (h : l₁.Perm l₂)
    (hties : ∀ a ∈ l₁, ∀ b ∈ l₁, ties a b = true → a = b) :
    sortFindings l₁ = sortFindings l₂ := by
  have hperm : (sortFindings l₁).Perm (sortFindings l₂) :=
    (sortFindings_perm l₁).trans (h.trans (sortFindings_perm l₂).symm)
  refine hperm.eq_of_pairwise ?_ (sorted_sortFindings l₁) (sorted_sortFindings l₂)
  intro a b ha hb hab hba
  have ha₁ : a ∈ l₁ := (sortFindings_perm l₁).mem_iff.mp ha
  have hb₁ : b ∈ l₁ := h.mem_iff.mpr ((sortFindings_perm l₂).mem_iff.mp hb)
  exact hties a ha₁ b hb₁ (Bool.and_eq_true_iff.mpr ⟨hab, hba⟩)

/-- Sorting commutes with keeping some of the findings. -/
theorem filter_sortFindings (keep : Finding → Bool) (l : List Finding) :
    (sortFindings l).filter keep = sortFindings (l.filter keep) := by
  refine eq_of_sorted_of_filter_ties_eq ((sorted_sortFindings l).filter _)
    (sorted_sortFindings _) fun a => ?_
  rw [filter_ties_sortFindings, List.filter_comm, filter_ties_sortFindings, List.filter_comm]

end SeamLint.Finding
