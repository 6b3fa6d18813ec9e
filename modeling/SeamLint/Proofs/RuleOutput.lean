import Mathlib.Data.List.Forall2
import Mathlib.Data.List.Nodup
import SeamLint.Proofs.DecimalText
import SeamLint.Rule.Catalog

set_option autoImplicit false

/-! # What the rules of the catalogue find

Every rule of the catalogue puts its own id and the path of the tree on what it finds, and
fills its message with arguments of a fixed form: which of them are texts and which are
numbers depends on the rule alone (`catalog_findsInForm`). Two findings of the catalogue are
therefore equal as soon as they agree in rule, path and span and their arguments are shown
as the same texts (`eq_of_shown_eq`). A rule comes to an end wherever the complexity of a node
can be counted (`catalog_endsUnless`).
-/

namespace SeamLint.Rule

open SeamLint.Code SeamLint.Finding

/-! ## Computations that may find something -/

/-- Whatever the computation finds satisfies `P`. -/
def Yields (P : Finding → Prop) (x : Except Stop (Option Finding)) : Prop :=
  ∀ f, x = .ok (some f) → P f

section

variable {P : Finding → Prop}

theorem yields_none : Yields P (pure none) := by
  intro f h
  cases h

theorem yields_found {f : Finding} (hf : P f) : Yields P (pure (some f)) := by
  intro g h
  cases h
  exact hf

theorem yields_bind {α : Type} {x : Except Stop α} {next : α → Except Stop (Option Finding)}
    (h : ∀ a, Yields P (next a)) : Yields P (x >>= next) := by
  intro f hf
  cases x with
  | error fault => cases hf
  | ok a => exact h a f hf

end

/-! ## The form of findings -/

/-- The argument is a number. -/
def isNumber : Argument → Bool
  | .text _ => false
  | .number _ => true

/-- The finding is one of a rule with these facts in this tree, and its arguments have the
given form: true for a number, false for a text. -/
def InForm (d : Descriptor) (context : Context) (form : List Bool) (f : Finding) : Prop :=
  f.ruleId = d.id ∧ f.path = context.tree.path ∧ f.arguments.map isNumber = form

/-- The rule only makes findings of the given form. -/
def FindsInForm (r : Rule) (form : List Bool) : Prop :=
  ∀ (context : Context) (n : Node), Yields (InForm r.descriptor context form) (r.evaluate context n)

theorem yields_inForm {d : Descriptor} {context : Context} {form : List Bool} {span : Span}
    {arguments : List Argument} (h : arguments.map isNumber = form) :
    Yields (InForm d context form) (pure (some (d.found context span arguments))) :=
  yields_found ⟨rfl, rfl, h⟩

/-- The forms of the findings of the catalogue, rule by rule. -/
def argumentForms : List (List Bool) :=
  [[false], [false, false], [], [false, false], [false], [], [], [false, false], [false],
   [false, true], [false], [false], [false], [], [false], [], [], [false, true, true]]

/-- **Every rule of the catalogue makes findings of one form.** -/
theorem catalog_findsInForm : List.Forall₂ FindsInForm catalog argumentForms := by
  unfold catalog argumentForms
  repeat' apply List.Forall₂.cons
  on_goal 19 => exact List.Forall₂.nil
  all_goals
    intro context n
    simp only [directInstantiation, concreteParameter, serviceLocator, staticCall, clockRead,
      clockProperty, systemClock, guidCreation, environmentVariable, staticProperty,
      nonVirtualMethod, largePrivateMethod, staticMutableField, ambientContext,
      fileSystemAccess, httpClientCreation, databaseAccess, processStart, sharedRandom,
      highComplexity]
    -- a rule is a cascade of tests and lookups in front of one finding
    repeat' first
      | exact yields_none
      | exact yields_inForm rfl
      | refine yields_bind fun _ => ?_
      | split

/-! ## Rules that come to an end -/

/-- The computation comes to an end, unless `P`. -/
def EndsUnless {α : Type} (P : Prop) (x : Except Stop α) : Prop := x = .error .endless → P

section EndsUnless

variable {α β : Type} {P : Prop} {context : Context} {n : Node}

theorem endsUnless_pure (a : α) : EndsUnless P (pure a) := by
  intro h
  cases h

theorem endsUnless_bind {x : Except Stop α} {next : α → Except Stop β} (hx : EndsUnless P x)
    (hnext : ∀ a, EndsUnless P (next a)) : EndsUnless P (x >>= next) := by
  cases x with
  | ok a => exact hnext a
  | error stop =>
      intro h
      exact hx (congrArg Except.error (Except.error.inj h))

theorem endsUnless_code (x : Except Code.Fault α) : EndsUnless P (liftM x : Except Stop α) := by
  intro h
  cases x with
  | ok a => cases h
  | error fault => cases h

theorem endsUnless_threshold (x : Except Settings.UndeclaredThreshold α) :
    EndsUnless P (liftM x : Except Stop α) := by
  intro h
  cases x with
  | ok a => cases h
  | error fault => cases h

theorem endsUnless_complexity {x : Except (Code.Stop Code.Fault) α} (h : x = .error .endless → P) :
    EndsUnless P (liftM x : Except Stop α) := by
  intro hx
  rcases x with (fault | _) | a
  · cases hx
  · exact h rfl
  · cases hx

theorem endsUnless_excludesTypeOf (h : EndsUnless P context.settings)
    (symbol : Option Symbol) : EndsUnless P (context.excludesTypeOf symbol) := by
  cases symbol with
  | none => exact endsUnless_pure _
  | some s => exact endsUnless_bind h fun _ => endsUnless_pure _

end EndsUnless

/-- **A rule of the catalogue comes to an end**, unless there is no end to its settings or to the
counting of a complexity. -/
theorem catalog_endsUnless {r : Rule} (hr : r ∈ catalog) (context : Context) (n : Node) :
    EndsUnless (context.settings = .error .endless ∨
      Measure.complexityAt context.tree n = .error .endless) (r.evaluate context n) := by
  have hsettings : EndsUnless (context.settings = .error .endless ∨
      Measure.complexityAt context.tree n = .error .endless) context.settings := Or.inl
  have hcomplexity := endsUnless_complexity (P := context.settings = .error .endless ∨
    Measure.complexityAt context.tree n = .error .endless) Or.inr
  revert r
  simp only [catalog, List.forall_mem_cons]
  refine ⟨?_, ?_, ?_, ?_, ?_, ?_, ?_, ?_, ?_, ?_, ?_, ?_, ?_, ?_, ?_, ?_, ?_, ?_,
    List.forall_mem_nil _⟩
  all_goals
    simp only [directInstantiation, concreteParameter, serviceLocator, staticCall, clockRead,
      clockProperty, systemClock, guidCreation, environmentVariable, staticProperty,
      nonVirtualMethod, largePrivateMethod, staticMutableField, ambientContext,
      fileSystemAccess, httpClientCreation, databaseAccess, processStart, sharedRandom,
      highComplexity, asksProvider, hasLocatorReceiver, startsProcess, isStartedAtOnce,
      Context.tags]
    repeat' first
      | exact endsUnless_pure _
      | exact endsUnless_code _
      | exact endsUnless_threshold _
      | exact endsUnless_excludesTypeOf hsettings _
      | exact hsettings
      | exact hcomplexity
      | refine endsUnless_bind ?_ fun _ => ?_
      | split

/-! ## Findings of the catalogue -/

theorem exists_form_of_mem_catalog {r : Rule} (hr : r ∈ catalog) : ∃ form, FindsInForm r form := by
  obtain ⟨i, hi, rfl⟩ := List.mem_iff_getElem.mp hr
  have hlen : catalog.length = argumentForms.length := catalog_findsInForm.length_eq
  exact ⟨argumentForms[i], catalog_findsInForm.get hi (hlen ▸ hi)⟩

/-- The rule puts its own id on what it finds. -/
def SignsFindings (r : Rule) : Prop :=
  ∀ (context : Context) (n : Node) (f : Finding),
    r.evaluate context n = .ok (some f) → f.ruleId = r.id

theorem signs_of_mem_catalog {r : Rule} (hr : r ∈ catalog) : SignsFindings r := by
  obtain ⟨form, hform⟩ := exists_form_of_mem_catalog hr
  intro context n f h
  exact (hform context n f h).1

/-- The ids of the catalogue are distinct. -/
theorem catalog_ids_nodup : (catalog.map Rule.id).Nodup := by decide

/-- A rule of the catalogue is determined by its id. -/
theorem eq_of_id_eq {r s : Rule} (hr : r ∈ catalog) (hs : s ∈ catalog) (h : r.id = s.id) :
    r = s :=
  List.inj_on_of_nodup_map catalog_ids_nodup hr hs h

theorem shown_injective_of_form {a b : Argument} (hform : isNumber a = isNumber b)
    (h : a.shown = b.shown) : a = b := by
  cases a with
  | text s =>
      cases b with
      | text t => exact congrArg Argument.text h
      | number n => cases hform
  | number m =>
      cases b with
      | text t => cases hform
      | number n => exact congrArg Argument.number (Number.toString_injective h)

/-- Arguments of one form are told apart by the texts that they are shown as. -/
theorem arguments_eq_of_shown_eq {as bs : List Argument}
    (hform : as.map isNumber = bs.map isNumber)
    (h : as.map Argument.shown = bs.map Argument.shown) : as = bs := by
  induction as generalizing bs with
  | nil =>
      cases bs with
      | nil => rfl
      | cons b bs => cases h
  | cons a as ih =>
      cases bs with
      | nil => cases h
      | cons b bs =>
          obtain ⟨hform₁, hform₂⟩ := List.cons.inj hform
          obtain ⟨h₁, h₂⟩ := List.cons.inj h
          rw [shown_injective_of_form hform₁ h₁, ih hform₂ h₂]

/-- The finding was made by a rule of the catalogue. -/
def FromCatalog (f : Finding) : Prop :=
  ∃ r ∈ catalog, ∃ (context : Context) (n : Node), r.evaluate context n = .ok (some f)

/-- **Findings of the catalogue are told apart by what they show.** -/
theorem eq_of_shown_eq {f g : Finding} (hf : FromCatalog f) (hg : FromCatalog g)
    (hpath : f.path = g.path) (hspan : f.span = g.span) (hid : f.ruleId = g.ruleId)
    (hshown : f.arguments.map Argument.shown = g.arguments.map Argument.shown) : f = g := by
  obtain ⟨r, hr, context, n, hfound⟩ := hf
  obtain ⟨s, hs, context', n', hfound'⟩ := hg
  obtain ⟨form, hform⟩ := exists_form_of_mem_catalog hr
  obtain ⟨form', hform'⟩ := exists_form_of_mem_catalog hs
  obtain ⟨hfid, -, hfargs⟩ := hform context n f hfound
  have hgid : g.ruleId = s.id := (hform' context' n' g hfound').1
  -- the rule is the same one, so the arguments have the same form
  obtain rfl : r = s := eq_of_id_eq hr hs (hfid.symm.trans (hid.trans hgid))
  have hgargs : g.arguments.map isNumber = form := (hform context' n' g hfound').2.2
  have hargs : f.arguments = g.arguments :=
    arguments_eq_of_shown_eq (hfargs.trans hgargs.symm) hshown
  obtain ⟨fid, fpath, fspan, fargs⟩ := f
  obtain ⟨gid, gpath, gspan, gargs⟩ := g
  exact Finding.mk.injEq .. |>.mpr ⟨hid, hpath, hspan, hargs⟩

end SeamLint.Rule
