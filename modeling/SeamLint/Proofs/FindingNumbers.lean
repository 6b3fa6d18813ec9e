import SeamLint.Proofs.IntegerText
import SeamLint.Proofs.RuleOutput

set_option autoImplicit false

/-! # The numbers in findings

Findings are listed by what they show, and a number with too many digits is not shown. Of the
rules of the catalogue, only two put numbers into what they find: the lines of a private method,
and the complexity of a method together with the threshold that it exceeds. A finding can
therefore be shown unless the method is out of all measure (`isShowable_or_isHuge`).
-/

namespace SeamLint.Rule

open SeamLint.Code SeamLint.Finding SeamLint.Number SeamLint.Settings

/-! ## Findings without numbers -/

theorem isShowable_of_form {d : Descriptor} {context : Context} {form : List Bool} {f : Finding}
    (hform : ∀ b ∈ form, b = false) (hf : InForm d context form f) : f.isShowable = true := by
  refine List.all_eq_true.mpr fun a ha => ?_
  have hmem : isNumber a ∈ form := by
    rw [← hf.2.2]
    exact List.mem_map_of_mem ha
  cases a with
  | text s => rfl
  | number n =>
      have hnumber : true = false := hform _ hmem
      cases hnumber

/-- All rules of the catalogue but two find nothing with a number in it. -/
theorem showable_of_mem_catalog {r : Rule} (hr : r ∈ catalog) :
    r = largePrivateMethod ∨ r = highComplexity ∨
      ∀ (context : Context) (n : Node) (f : Finding),
        r.evaluate context n = .ok (some f) → f.isShowable = true := by
  have hforms : ∀ p ∈ catalog.zip argumentForms,
      p.1.id = "SEAM011" ∨ p.1.id = "SEAM020" ∨ ∀ b ∈ p.2, b = false := by
    decide
  obtain ⟨i, hi, rfl⟩ := List.mem_iff_getElem.mp hr
  have hlength : catalog.length = argumentForms.length := catalog_findsInForm.length_eq
  have hi' : i < argumentForms.length := hlength ▸ hi
  have hfinds : FindsInForm catalog[i] argumentForms[i] := catalog_findsInForm.get hi hi'
  have hzip : (catalog[i], argumentForms[i]) ∈ catalog.zip argumentForms :=
    List.mem_iff_getElem.mpr ⟨i, by simp [← hlength, hi], List.getElem_zip⟩
  rcases hforms _ hzip with hid | hid | hform
  · exact Or.inl (eq_of_id_eq hr (by simp [catalog]) hid)
  · exact Or.inr (Or.inl (eq_of_id_eq hr (by simp [catalog]) hid))
  · exact Or.inr (Or.inr fun context n f hf => isShowable_of_form hform (hfinds context n f hf))

/-! ## Findings with numbers -/

section

variable {P : Finding → Prop} {α : Type}

theorem yields_bind_of_eq {x : Except Stop α} {next : α → Except Stop (Option Finding)}
    (h : ∀ a, x = .ok a → Yields P (next a)) : Yields P (x >>= next) := by
  intro f hf
  cases hx : x with
  | error fault =>
      rw [hx] at hf
      cases hf
  | ok a =>
      rw [hx] at hf
      exact h a hx f hf

theorem eq_ok_of_mapError {ε ε' : Type} {g : ε → ε'} {x : Except ε α} {a : α}
    (h : x.mapError g = .ok a) : x = .ok a := by
  cases x with
  | error fault => cases h
  | ok b => exact congrArg Except.ok (Except.ok.inj h)

end

/-- A threshold that the rule was told. -/
def Context.HasThreshold (context : Context) (name : String) (value : Int) : Prop :=
  ∃ s, context.settings = .ok s ∧ s.threshold name = .ok value

/-- A private method is found with its lines, which are more than the threshold. -/
theorem yields_largePrivateMethod (context : Context) (n : Node) :
    Yields (fun f => ∃ name threshold, context.HasThreshold lineThreshold threshold ∧
        threshold < n.span.lineCount ∧ f.arguments = [.text name, .number n.span.lineCount])
      (largePrivateMethod.evaluate context n) := by
  simp only [largePrivateMethod]
  split
  · exact yields_none
  · refine yields_bind fun body => ?_
    split
    · split
      · exact yields_none
      · refine yields_bind_of_eq fun s hs => yields_bind_of_eq fun threshold hthreshold => ?_
        split
        · exact yields_none
        · next hlines =>
            refine yields_found ⟨_, threshold, ⟨s, hs, eq_ok_of_mapError hthreshold⟩, ?_, rfl⟩
            omega
    · exact yields_none

/-- A private method with a block and with more lines than the threshold is found. -/
theorem evaluate_largePrivateMethod {context : Context} {n body : Node} {threshold : Int}
    (hprivate : isPrivate n.toFacts = true) (hbody : context.tree.body n = .ok (some body))
    (hblock : body.kind = .block) (hthreshold : context.HasThreshold lineThreshold threshold)
    (hlines : threshold < n.span.lineCount) :
    largePrivateMethod.evaluate context n =
      .ok (some (largePrivateMethodDescriptor.found context n.identifierSpan
        [textArgument (n.name.getD ""), .number n.span.lineCount])) := by
  obtain ⟨settings, hsettings, hread⟩ := hthreshold
  simp only [largePrivateMethod, hprivate, hbody, hsettings]
  show (if body.kind ≠ .block then _ else _) = _
  rw [if_neg (not_not_intro hblock)]
  show ((settings.threshold lineThreshold : Except Stop Int) >>= _) = _
  rw [hread]
  exact if_neg (Int.not_le.mpr hlines)

/-- A method with many branches is found with its complexity and the threshold. -/
theorem yields_highComplexity (context : Context) (n : Node) :
    Yields (fun f => ∃ name score threshold, context.HasThreshold complexityThreshold threshold ∧
        Measure.complexityAt context.tree n = .ok score ∧
        f.arguments = [.text name, .number score, .number threshold])
      (highComplexity.evaluate context n) := by
  simp only [highComplexity]
  refine yields_bind fun body => ?_
  split
  · split
    · exact yields_none
    · refine yields_bind_of_eq fun s hs => yields_bind_of_eq fun threshold hthreshold => ?_
      refine yields_bind_of_eq fun score hscore => ?_
      split
      · exact yields_none
      · refine yields_bind fun name => yields_found ?_
        exact ⟨name, score, threshold, ⟨s, hs, eq_ok_of_mapError hthreshold⟩,
          eq_ok_of_mapError hscore, rfl⟩
  · exact yields_none

/-- Code that is to be scored, with a higher score than the threshold, is found. -/
theorem evaluate_highComplexity {context : Context} {n body : Node} {threshold : Int} {score : Nat}
    {name : String} (hbody : context.tree.body n = .ok (some body))
    (hscored : isScored n.toFacts = true)
    (hthreshold : context.HasThreshold complexityThreshold threshold)
    (hscore : Measure.complexityAt context.tree n = .ok score)
    (hname : Measure.displayName context.tree n = .ok name) (hover : threshold < score) :
    highComplexity.evaluate context n =
      .ok (some (highComplexityDescriptor.found context n.identifierSpan
        [textArgument name, .number score, .number threshold])) := by
  obtain ⟨settings, hsettings, hread⟩ := hthreshold
  simp only [highComplexity, hbody, hscored, hsettings]
  show ((settings.threshold complexityThreshold : Except Stop Int) >>= _) = _
  rw [hread]
  show ((Measure.complexityAt context.tree n : Except Stop Nat) >>= _) = _
  rw [hscore]
  show (if (score : Int) ≤ threshold then .ok none else
    (Measure.displayName context.tree n : Except Stop String) >>= _) = _
  rw [if_neg (Int.not_le.mpr hover), hname]
  rfl

/-! ## What can be shown -/

/-- The lines or the complexity of a node have more digits than are written. -/
def IsHuge (t : Tree) (n : Node) : Prop :=
  10 ^ digitLimit ≤ n.span.lineCount ∨
    ∃ score, Measure.complexityAt t n = .ok score ∧ 10 ^ digitLimit ≤ score

/-- **What a rule of the catalogue finds can be shown, unless it is huge.** -/
theorem isShowable_or_isHuge {r : Rule} (hr : r ∈ catalog) {context : Context} {n : Node}
    (hthresholds : ∀ name value, context.HasThreshold name value → isWritable value = true)
    {f : Finding} (hf : r.evaluate context n = .ok (some f)) :
    f.isShowable = true ∨ IsHuge context.tree n := by
  by_cases hhuge : IsHuge context.tree n
  · exact Or.inr hhuge
  · left
    obtain ⟨hlines, hscores⟩ := not_or.mp hhuge
    rcases showable_of_mem_catalog hr with rfl | rfl | hshowable
    · obtain ⟨name, threshold, hthreshold, hlt, harguments⟩ :=
        yields_largePrivateMethod context n f hf
      -- more lines than a threshold that can be written, and not as many as cannot
      have hcount : isWritable n.span.lineCount = true := by
        have hwritable := isWritable_iff_lt.mp (hthresholds _ _ hthreshold)
        rw [isWritable_iff_lt]
        omega
      simp [Finding.isShowable, harguments, Argument.isShowable, hcount]
    · obtain ⟨name, score, threshold, hthreshold, hscore, harguments⟩ :=
        yields_highComplexity context n f hf
      have hcount : isWritable score = true := by
        rw [isWritable_iff, Int.natAbs_natCast]
        by_contra hle
        exact hscores ⟨score, hscore, Nat.le_of_not_lt hle⟩
      simp [Finding.isShowable, harguments, Argument.isShowable, hcount,
        hthresholds _ _ hthreshold]
    · exact hshowable context n f hf

end SeamLint.Rule
