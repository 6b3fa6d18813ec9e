import Mathlib.Data.List.Nodup
import SeamLint.Proofs.Resolution

set_option autoImplicit false

/-! # Inquiries at a shared resolver

Inquiries for settings are handled side by side. An `Inquiry` takes three moves: it looks up
whether something is kept for its request, puts settings together from the answers to its
lookups, and keeps them unless another inquiry was faster. A `Desk` holds the inquiries and the
resolver that they share, and a list of moves says which inquiry goes on when, and how the
lookups that it makes then are answered. Answers need not be the same from move to move, nor
from lookup to lookup.

Settings that were made are told apart by their maker, so that two inquiries return the same
`Made` only if one of them returns what the other, or a third one, has made.

What a move can do is said once (`Inquiry.Outcome`). From that come what never changes once it
is there (`find?_run`, `returned_run`) and where everything has come from (`Desk.Traced`).
-/

namespace SeamLint.Settings

open SeamLint.Number

/-! ## Requests with the same question -/

theorem sortDefaults_eq_of_perm {defaults defaults' : List (String × Int)}
    (hnames : (defaults.map Prod.fst).Nodup) (h : defaults.Perm defaults') :
    sortDefaults defaults = sortDefaults defaults' := by
  have hsorted (l : List (String × Int)) :
      (sortDefaults l).Pairwise fun a b => decide (a.1 ≤ b.1) = true :=
    List.pairwise_mergeSort (fun a b c hab hbc => by
      simp only [decide_eq_true_iff] at hab hbc ⊢
      exact String.le_trans hab hbc) (fun a b => by
      simpa using String.le_total a.1 b.1) l
  have hperm : (sortDefaults defaults).Perm (sortDefaults defaults') :=
    (List.mergeSort_perm _ _).trans (h.trans (List.mergeSort_perm _ _).symm)
  refine List.Perm.eq_of_pairwise ?_ (hsorted defaults) (hsorted defaults') hperm
  -- two thresholds of one name are one threshold
  intro a b ha hb hab hba
  simp only [decide_eq_true_iff] at hab hba
  have ha' : a ∈ defaults := (List.mergeSort_perm _ _).mem_iff.mp ha
  have hb' : b ∈ defaults := h.mem_iff.mpr ((List.mergeSort_perm _ _).mem_iff.mp hb)
  exact List.inj_on_of_nodup_map hnames ha' hb' (String.le_antisymm hab hba)

theorem resolveWith_eq_of_normal_eq {r r' : Request} (h : r.normal = r'.normal) (ask : Answers) :
    resolveWith r ask = resolveWith r' ask := by
  obtain ⟨hid, -, -⟩ := Request.mk.inj h
  unfold resolveWith
  rw [h, hid]

section Keep

variable {α : Type} {resolver : Resolver α} {r r' : Request} {a a' : α}

theorem find?_eq_of_normal_eq (h : r.normal = r'.normal) :
    resolver.find? r = resolver.find? r' := by
  unfold Resolver.find?
  rw [h]

/-- What is kept stays as it is. -/
theorem find?_keep_of_eq_some (h : resolver.find? r = some a) (r' : Request) (a' : α) :
    (resolver.keep r' a').2.find? r = some a := by
  unfold Resolver.keep
  split
  · exact h
  · obtain ⟨entry, hentry, rfl⟩ := Option.map_eq_some_iff.mp h
    simp [Resolver.find?, List.find?_append, hentry]

/-- What keeping returns is what is kept from then on. -/
theorem find?_keep_self (resolver : Resolver α) (r : Request) (a : α) :
    (resolver.keep r a).2.find? r = some (resolver.keep r a).1 := by
  unfold Resolver.keep
  split
  · next kept hkept => exact hkept
  · next hnone =>
      have hfind := Option.map_eq_none_iff.mp hnone
      simp [Resolver.find?, List.find?_append, hfind]

/-- Nothing is kept but what was kept before or is being kept now. -/
theorem find?_keep_eq_some (h : (resolver.keep r a).2.find? r' = some a') :
    resolver.find? r' = some a' ∨ r'.normal = r.normal ∧ a' = a := by
  unfold Resolver.keep at h
  split at h
  · exact Or.inl h
  · unfold Resolver.find? at h ⊢
    rw [List.find?_append, List.find?_singleton] at h
    cases hfind : resolver.known.find? fun entry => entry.1 == r'.normal with
    | some entry =>
        rw [hfind] at h
        exact Or.inl h
    | none =>
        rw [hfind, Option.none_or] at h
        split at h
        · next heq => exact Or.inr ⟨(beq_iff_eq.mp heq).symm, (Option.some.inj h).symm⟩
        · cases h

end Keep

/-! ## Inquiries -/

/-- Settings, together with the number of the inquiry that has made them. -/
structure Made where
  maker : Nat
  settings : RuleSettings
deriving DecidableEq

/-- How far an inquiry has come. -/
inductive Stage where
  | asked
  | missed
  | made (m : Made)
  | returned (m : Made)
  | raised (fault : IntegerFault)
deriving DecidableEq

/-- A request and how far it has come. -/
structure Inquiry where
  request : Request
  stage : Stage := .asked

/-- Inquiries that share a resolver. -/
structure Desk where
  inquiries : List Inquiry
  resolver : Resolver Made := {}

/-- One move: which inquiry goes on, and how each lookup that it makes is answered. -/
structure Move where
  inquiry : Nat
  provider : Nat → Provider

/-- How a move answers the lookups for a request. -/
def Move.answers (mv : Move) (r : Request) : Answers := fun number => mv.provider number r.scope

/-- One move of an inquiry. -/
def Inquiry.step (mv : Move) (resolver : Resolver Made) (q : Inquiry) : Inquiry × Resolver Made :=
  match q.stage with
  | .asked =>
      match resolver.find? q.request with
      | some kept => ({ q with stage := .returned kept }, resolver)
      | none => ({ q with stage := .missed }, resolver)
  | .missed =>
      match (resolveWith q.request (mv.answers q.request)).settings with
      | .error fault => ({ q with stage := .raised fault }, resolver)
      | .ok s => ({ q with stage := .made ⟨mv.inquiry, s⟩ }, resolver)
  | .made m =>
      let kept := resolver.keep q.request m
      ({ q with stage := .returned kept.1 }, kept.2)
  | .returned _ | .raised _ => (q, resolver)

/-- One move at a desk. A move of an inquiry that is not there changes nothing. -/
def Desk.move (d : Desk) (mv : Move) : Desk :=
  match d.inquiries[mv.inquiry]? with
  | none => d
  | some q =>
      let next := q.step mv d.resolver
      ⟨d.inquiries.set mv.inquiry next.1, next.2⟩

/-- The desk after some moves. -/
def Desk.run (d : Desk) (moves : List Move) : Desk := moves.foldl Desk.move d

/-- A desk before the first move, with nothing resolved. -/
def Desk.opening (requests : List Request) : Desk where
  inquiries := requests.map fun r => { request := r }

theorem run_append (d : Desk) (moves more : List Move) :
    d.run (moves ++ more) = (d.run moves).run more := List.foldl_append

/-! ## What a move can do -/

/-- All that a move can make of an inquiry and of the resolver. -/
inductive Inquiry.Outcome (mv : Move) (resolver : Resolver Made) (q : Inquiry) :
    Inquiry → Resolver Made → Prop where
  | found (kept : Made) (hstage : q.stage = .asked) (hkept : resolver.find? q.request = some kept) :
      Outcome mv resolver q { q with stage := .returned kept } resolver
  | missed (hstage : q.stage = .asked) (hnone : resolver.find? q.request = none) :
      Outcome mv resolver q { q with stage := .missed } resolver
  | raised (fault : IntegerFault) (hstage : q.stage = .missed)
      (hsettings : (resolveWith q.request (mv.answers q.request)).settings = .error fault) :
      Outcome mv resolver q { q with stage := .raised fault } resolver
  | made (s : RuleSettings) (hstage : q.stage = .missed)
      (hsettings : (resolveWith q.request (mv.answers q.request)).settings = .ok s) :
      Outcome mv resolver q { q with stage := .made ⟨mv.inquiry, s⟩ } resolver
  | kept (m : Made) (hstage : q.stage = .made m) :
      Outcome mv resolver q { q with stage := .returned (resolver.keep q.request m).1 }
        (resolver.keep q.request m).2
  | finished (hstage : (∃ m, q.stage = .returned m) ∨ ∃ fault, q.stage = .raised fault) :
      Outcome mv resolver q q resolver

theorem outcome_step (mv : Move) (resolver : Resolver Made) (q : Inquiry) :
    q.Outcome mv resolver (q.step mv resolver).1 (q.step mv resolver).2 := by
  unfold Inquiry.step
  cases hstage : q.stage with
  | asked =>
      cases hfind : resolver.find? q.request with
      | some kept => exact .found kept hstage hfind
      | none => exact .missed hstage hfind
  | missed =>
      cases hs : (resolveWith q.request (mv.answers q.request)).settings with
      | error fault => simpa only [hs] using .raised fault hstage hs
      | ok s => simpa only [hs] using .made s hstage hs
  | made m => exact .kept m hstage
  | returned m => exact .finished (Or.inl ⟨m, hstage⟩)
  | raised fault => exact .finished (Or.inr ⟨fault, hstage⟩)

/-- A move at a desk is that of one of its inquiries, if it is one at all. -/
theorem move_cases (d : Desk) (mv : Move) :
    (d.inquiries[mv.inquiry]? = none ∧ d.move mv = d) ∨
    ∃ q q' resolver', d.inquiries[mv.inquiry]? = some q ∧ q.Outcome mv d.resolver q' resolver' ∧
      d.move mv = ⟨d.inquiries.set mv.inquiry q', resolver'⟩ := by
  unfold Desk.move
  cases hq : d.inquiries[mv.inquiry]? with
  | none => exact Or.inl ⟨rfl, rfl⟩
  | some q => exact Or.inr ⟨q, _, _, rfl, outcome_step mv d.resolver q, rfl⟩

/-! ## What stays as it is -/

theorem find?_move {d : Desk} {r : Request} {m : Made} (h : d.resolver.find? r = some m)
    (mv : Move) : (d.move mv).resolver.find? r = some m := by
  rcases move_cases d mv with ⟨-, hmove⟩ | ⟨q, q', resolver', -, hout, hmove⟩
  · rw [hmove]
    exact h
  · rw [hmove]
    cases hout with
    | kept m' => exact find?_keep_of_eq_some h q.request m'
    | found | missed | raised | made | finished => exact h

/-- **What is kept is never replaced.** -/
theorem find?_run {d : Desk} {r : Request} {m : Made} (h : d.resolver.find? r = some m)
    (moves : List Move) : (d.run moves).resolver.find? r = some m := by
  induction moves generalizing d with
  | nil => exact h
  | cons mv moves ih => exact ih (find?_move h mv)

theorem returned_move {d : Desk} {i : Nat} {q : Inquiry} {m : Made}
    (hq : d.inquiries[i]? = some q) (hstage : q.stage = .returned m) (mv : Move) :
    (d.move mv).inquiries[i]? = some q := by
  rcases move_cases d mv with ⟨-, hmove⟩ | ⟨q₀, q', resolver', hq₀, hout, hmove⟩
  · rw [hmove]
    exact hq
  · rw [hmove]
    by_cases hi : mv.inquiry = i
    · rw [hi] at hq₀
      obtain rfl := Option.some.inj (hq.symm.trans hq₀)
      -- of all outcomes, only the last is that of an inquiry that has returned
      have hsame : q' = q := by
        cases hout with
        | finished => rfl
        | found _ h | missed h | raised _ h | made _ h | kept _ h =>
            rw [hstage] at h
            cases h
      have hlt : i < d.inquiries.length := (List.getElem?_eq_some_iff.mp hq).1
      rw [hi, hsame]
      exact List.getElem?_set_self hlt
    · rw [List.getElem?_set_ne hi]
      exact hq

/-- An inquiry that has returned something stays as it is. -/
theorem returned_run {d : Desk} {i : Nat} {q : Inquiry} {m : Made}
    (hq : d.inquiries[i]? = some q) (hstage : q.stage = .returned m) (moves : List Move) :
    (d.run moves).inquiries[i]? = some q := by
  induction moves generalizing d with
  | nil => exact hq
  | cons mv moves ih => exact ih (returned_move hq hstage mv)

/-- **An inquiry that raises leaves the resolver alone**, in each of its moves. -/
theorem resolver_move_of_raised {d : Desk} {mv : Move} (more : List Move) {q : Inquiry}
    {fault : IntegerFault} (hq : ((d.move mv).run more).inquiries[mv.inquiry]? = some q)
    (hstage : q.stage = .raised fault) : (d.move mv).resolver = d.resolver := by
  rcases move_cases d mv with ⟨-, hmove⟩ | ⟨q₀, q', resolver', hq₀, hout, hmove⟩
  · rw [hmove]
  · rw [hmove]
    cases hout with
    | found | missed | raised | made | finished => rfl
    | kept m =>
        -- the inquiry has returned, and would still have done so at the end
        have hlt : mv.inquiry < d.inquiries.length := (List.getElem?_eq_some_iff.mp hq₀).1
        have hreturned : (d.move mv).inquiries[mv.inquiry]? =
            some { q₀ with stage := .returned (d.resolver.keep q₀.request m).1 } := by
          rw [hmove]
          exact List.getElem?_set_self hlt
        have hend := returned_run hreturned rfl more
        rw [hend] at hq
        rw [← Option.some.inj hq] at hstage
        cases hstage

/-! ## Where everything has come from -/

/-- Settings made for a request are those of an inquiry with the same question, which has put
them together from the answers of one of the moves. -/
def MadeFor (requests : List Request) (moves : List Move) (r : Request) (m : Made) : Prop :=
  ∃ r', requests[m.maker]? = some r' ∧ r'.normal = r.normal ∧
    ∃ mv ∈ moves, mv.inquiry = m.maker ∧ (resolveWith r (mv.answers r)).settings = .ok m.settings

/-- What an inquiry has come to goes back to the resolver or to the answers of a move. -/
def Inquiry.Traced (requests : List Request) (moves : List Move) (resolver : Resolver Made)
    (q : Inquiry) : Prop :=
  match q.stage with
  | .asked | .missed => True
  | .made m => MadeFor requests moves q.request m
  | .returned m => resolver.find? q.request = some m
  | .raised fault =>
      ∃ mv ∈ moves, (resolveWith q.request (mv.answers q.request)).settings = .error fault

/-- The same of all inquiries, and of everything that the resolver keeps. -/
structure Desk.Traced (requests : List Request) (moves : List Move) (d : Desk) : Prop where
  requests_eq : d.inquiries.map Inquiry.request = requests
  inquiries : ∀ q ∈ d.inquiries, q.Traced requests moves d.resolver
  kept : ∀ r m, d.resolver.find? r = some m → MadeFor requests moves r m

section Traced

variable {requests : List Request} {moves : List Move} {d : Desk}

theorem MadeFor.mono {moves' : List Move} (hmoves : moves ⊆ moves') {r : Request} {m : Made}
    (h : MadeFor requests moves r m) : MadeFor requests moves' r m := by
  obtain ⟨r', hr', hnormal, mv, hmv, hmade⟩ := h
  exact ⟨r', hr', hnormal, mv, hmoves hmv, hmade⟩

/-- Settings made for a request were made for every request with the same question. -/
theorem MadeFor.of_normal_eq {r r' : Request} (hnormal : r'.normal = r.normal) {m : Made}
    (h : MadeFor requests moves r m) : MadeFor requests moves r' m := by
  obtain ⟨r₀, hr₀, hnormal₀, mv, hmv, hmaker, hs⟩ := h
  have hscope : r'.scope = r.scope := (Request.mk.inj hnormal).2.1
  have hanswers : mv.answers r' = mv.answers r := by
    unfold Move.answers
    rw [hscope]
  refine ⟨r₀, hr₀, hnormal₀.trans hnormal.symm, mv, hmv, hmaker, ?_⟩
  rw [hanswers, resolveWith_eq_of_normal_eq hnormal, hs]

theorem Inquiry.Traced.mono {moves' : List Move} (hmoves : moves ⊆ moves')
    {resolver resolver' : Resolver Made}
    (hresolver : ∀ r m, resolver.find? r = some m → resolver'.find? r = some m) {q : Inquiry}
    (h : q.Traced requests moves resolver) : q.Traced requests moves' resolver' := by
  unfold Inquiry.Traced at h ⊢
  cases hstage : q.stage with
  | asked | missed => trivial
  | made m =>
      rw [hstage] at h
      exact MadeFor.mono hmoves h
  | returned m =>
      rw [hstage] at h
      exact hresolver _ _ h
  | raised fault =>
      rw [hstage] at h
      obtain ⟨mv, hmv, hs⟩ := h
      exact ⟨mv, hmoves hmv, hs⟩

theorem traced_opening (requests : List Request) :
    (Desk.opening requests).Traced requests [] where
  requests_eq := by simp [Desk.opening, Function.comp_def]
  inquiries := by
    intro q hq
    obtain ⟨r, -, rfl⟩ := List.mem_map.mp hq
    trivial
  kept := by
    intro r m hfind
    cases hfind

/-- What a move makes of an inquiry goes back to somewhere. -/
theorem Desk.Traced.outcome (h : d.Traced requests moves) {mv : Move} {q q' : Inquiry}
    {resolver' : Resolver Made} (hq : d.inquiries[mv.inquiry]? = some q)
    (hout : q.Outcome mv d.resolver q' resolver') :
    q'.request = q.request ∧ q'.Traced requests (moves ++ [mv]) resolver' ∧
      ∀ r m, resolver'.find? r = some m → MadeFor requests (moves ++ [mv]) r m := by
  have hmoves : moves ⊆ moves ++ [mv] := List.subset_append_left _ _
  have hmv : mv ∈ moves ++ [mv] := by simp
  have hkept : ∀ r m, d.resolver.find? r = some m → MadeFor requests (moves ++ [mv]) r m :=
    fun r m hfind => (h.kept r m hfind).mono hmoves
  have htraced := h.inquiries q (List.mem_of_getElem? hq)
  cases hout with
  | found kept hstage hfind => exact ⟨rfl, hfind, hkept⟩
  | missed => exact ⟨rfl, trivial, hkept⟩
  | raised fault hstage hs => exact ⟨rfl, ⟨mv, hmv, hs⟩, hkept⟩
  | made s hstage hs =>
      have hrequest : requests[mv.inquiry]? = some q.request := by
        rw [← h.requests_eq, List.getElem?_map, hq]
        rfl
      exact ⟨rfl, ⟨q.request, hrequest, rfl, mv, hmv, rfl, hs⟩, hkept⟩
  | kept m hstage =>
      have hmade : MadeFor requests (moves ++ [mv]) q.request m := by
        unfold Inquiry.Traced at htraced
        rw [hstage] at htraced
        exact MadeFor.mono hmoves htraced
      refine ⟨rfl, find?_keep_self d.resolver q.request m, fun r m' hfind => ?_⟩
      rcases find?_keep_eq_some hfind with hold | ⟨hnormal, rfl⟩
      · exact hkept r m' hold
      · exact hmade.of_normal_eq hnormal
  | finished =>
      exact ⟨rfl, htraced.mono hmoves fun _ _ hfind => hfind, hkept⟩

theorem Desk.Traced.move (h : d.Traced requests moves) (mv : Move) :
    (d.move mv).Traced requests (moves ++ [mv]) := by
  have hmoves : moves ⊆ moves ++ [mv] := List.subset_append_left _ _
  have hgrow : ∀ r m, d.resolver.find? r = some m → (d.move mv).resolver.find? r = some m :=
    fun r m hfind => find?_move hfind mv
  rcases move_cases d mv with ⟨-, hmove⟩ | ⟨q, q', resolver', hq, hout, hmove⟩
  · rw [hmove]
    exact ⟨h.requests_eq, fun q hq => (h.inquiries q hq).mono hmoves fun _ _ hfind => hfind,
      fun r m hfind => (h.kept r m hfind).mono hmoves⟩
  · obtain ⟨hrequest, htraced, hkept⟩ := h.outcome hq hout
    rw [hmove] at hgrow ⊢
    refine ⟨?_, fun q₀ hq₀ => ?_, hkept⟩
    · -- the inquiry that has moved still asks for the same
      rw [← h.requests_eq, List.map_set, hrequest]
      refine List.ext_getElem? fun i => ?_
      by_cases hi : mv.inquiry = i
      · subst hi
        rw [List.getElem?_set_self', List.getElem?_map, hq]
        rfl
      · rw [List.getElem?_set_ne hi]
    · rcases List.mem_or_eq_of_mem_set hq₀ with hold | rfl
      · exact (h.inquiries q₀ hold).mono hmoves hgrow
      · exact htraced

theorem Desk.Traced.run (h : d.Traced requests moves) (more : List Move) :
    (d.run more).Traced requests (moves ++ more) := by
  induction more generalizing d moves with
  | nil =>
      rw [List.append_nil]
      exact h
  | cons mv more ih =>
      have hrest := ih (h.move mv)
      rw [List.append_assoc] at hrest
      exact hrest

theorem traced_run_opening (requests : List Request) (moves : List Move) :
    ((Desk.opening requests).run moves).Traced requests moves :=
  (traced_opening requests).run moves

end Traced

/-! ## Undisturbed inquiries -/

/-- What a resolver keeps, no matter who has made it. -/
def Resolver.anonymous (resolver : Resolver Made) : Resolver where
  known := resolver.known.map fun entry => (entry.1, entry.2.settings)

theorem find?_anonymous (resolver : Resolver Made) (r : Request) :
    resolver.anonymous.find? r = (resolver.find? r).map Made.settings := by
  unfold Resolver.find? Resolver.anonymous
  rw [List.find?_map, Option.map_map, Option.map_map]
  rfl

theorem anonymous_keep (resolver : Resolver Made) (r : Request) (m : Made) :
    resolver.anonymous.keep r m.settings =
      ((resolver.keep r m).1.settings, (resolver.keep r m).2.anonymous) := by
  unfold Resolver.keep
  rw [find?_anonymous]
  cases resolver.find? r with
  | some kept => rfl
  | none => simp [Resolver.anonymous]

/-- What an inquiry answers its asker. -/
def Inquiry.reply? (q : Inquiry) : Option (Except IntegerFault RuleSettings) :=
  match q.stage with
  | .returned m => some (.ok m.settings)
  | .raised fault => some (.error fault)
  | _ => none

theorem move_of_getElem? {d : Desk} {q : Inquiry} (mv : Move)
    (hq : d.inquiries[mv.inquiry]? = some q) :
    (d.move mv).inquiries[mv.inquiry]? = some (q.step mv d.resolver).1 ∧
      (d.move mv).resolver = (q.step mv d.resolver).2 := by
  have hlt : mv.inquiry < d.inquiries.length := (List.getElem?_eq_some_iff.mp hq).1
  unfold Desk.move
  rw [hq]
  exact ⟨List.getElem?_set_self hlt, rfl⟩

/-- **Undisturbed, the three moves of an inquiry are one request to the resolver.** -/
theorem undisturbed_run {d : Desk} {i : Nat} {r : Request}
    (hq : d.inquiries[i]? = some { request := r }) (provider : Provider) :
    ∃ q, (d.run (List.replicate 3 ⟨i, fun _ => provider⟩)).inquiries[i]? = some q ∧
      q.reply? = some (d.resolver.anonymous.resolve provider r).1.settings ∧
      (d.run (List.replicate 3 ⟨i, fun _ => provider⟩)).resolver.anonymous =
        (d.resolver.anonymous.resolve provider r).2 := by
  let mv : Move := ⟨i, fun _ => provider⟩
  have hanswers : resolveWith r (mv.answers r) = resolve provider r := rfl
  -- it looks, puts settings together and keeps them, or has nothing left to do earlier
  obtain ⟨hq₁, hresolver₁⟩ := move_of_getElem? mv hq
  obtain ⟨hq₂, hresolver₂⟩ := move_of_getElem? mv hq₁
  obtain ⟨hq₃, hresolver₃⟩ := move_of_getElem? mv hq₂
  refine ⟨_, hq₃, ?_⟩
  show _ ∧ (((d.move mv).move mv).move mv).resolver.anonymous = _
  rw [hresolver₃, hresolver₂, hresolver₁]
  unfold Resolver.resolve
  rw [find?_anonymous]
  cases hfind : d.resolver.find? r with
  | some kept => simp [Inquiry.step, hfind, Inquiry.reply?]
  | none =>
      cases hs : (resolve provider r).settings with
      | error fault => simp [Inquiry.step, hfind, hanswers, hs, Inquiry.reply?]
      | ok s =>
          have hkeep := anonymous_keep d.resolver r ⟨i, s⟩
          simp only at hkeep
          simp [Inquiry.step, hfind, hanswers, hs, Inquiry.reply?, hkeep, mv]

/-! ## Any interleaving -/

/-- The requests ask for the same: the settings of one rule in one scope, with the same
thresholds in any order. -/
def Request.Same (r r' : Request) : Prop :=
  r.ruleId = r'.ruleId ∧ r.scope = r'.scope ∧ r.defaults.Perm r'.defaults

theorem normal_eq_of_same {r r' : Request} (hnames : (r.defaults.map Prod.fst).Nodup)
    (h : r.Same r') : r.normal = r'.normal := by
  obtain ⟨hid, hscope, hdefaults⟩ := h
  unfold Request.normal
  rw [hid, hscope, sortDefaults_eq_of_perm hnames hdefaults]

section Replies

variable {requests : List Request} {moves : List Move} {d : Desk}

/-- An inquiry has returned what is kept for its request. -/
theorem Desk.Traced.find?_of_returned (h : d.Traced requests moves) {q : Inquiry}
    (hq : q ∈ d.inquiries) {m : Made} (hstage : q.stage = .returned m) :
    d.resolver.find? q.request = some m := by
  have htraced := h.inquiries q hq
  unfold Inquiry.Traced at htraced
  rw [hstage] at htraced
  exact htraced

/-- **Inquiries that ask for the same return the same.** -/
theorem Desk.Traced.returned_eq_of_same (h : d.Traced requests moves)
    (hnames : ∀ r ∈ requests, (r.defaults.map Prod.fst).Nodup) {q q' : Inquiry}
    (hq : q ∈ d.inquiries) (hq' : q' ∈ d.inquiries) (hsame : q.request.Same q'.request)
    {m m' : Made} (hstage : q.stage = .returned m) (hstage' : q'.stage = .returned m') :
    m = m' := by
  have hrequest : q.request ∈ requests := by
    rw [← h.requests_eq]
    exact List.mem_map_of_mem hq
  have hnormal : q.request.normal = q'.request.normal :=
    normal_eq_of_same (hnames _ hrequest) hsame
  -- both have returned what is kept for the question that they have in common
  have hkept := h.find?_of_returned hq hstage
  rw [find?_eq_of_normal_eq hnormal, h.find?_of_returned hq' hstage'] at hkept
  exact (Option.some.inj hkept).symm

/-- If every lookup is answered by one provider, then so is every inquiry. -/
theorem Desk.Traced.settings_of_reply (h : d.Traced requests moves) {provider : Provider}
    (hmoves : ∀ mv ∈ moves, mv.provider = fun _ => provider) {q : Inquiry} (hq : q ∈ d.inquiries)
    {reply : Except IntegerFault RuleSettings} (hreply : q.reply? = some reply) :
    (resolve provider q.request).settings = reply := by
  have hanswers : ∀ mv ∈ moves, mv.answers q.request = fun _ => provider q.request.scope := by
    intro mv hmv
    unfold Move.answers
    rw [hmoves mv hmv]
  have htraced := h.inquiries q hq
  unfold Inquiry.Traced at htraced
  unfold Inquiry.reply? at hreply
  cases hstage : q.stage with
  | asked | missed | made =>
      rw [hstage] at hreply
      cases hreply
  | returned m =>
      rw [hstage] at hreply htraced
      obtain ⟨-, -, -, mv, hmv, -, hs⟩ := h.kept q.request m htraced
      rw [hanswers mv hmv] at hs
      exact hs.trans (Option.some.inj hreply)
  | raised fault =>
      rw [hstage] at hreply htraced
      obtain ⟨mv, hmv, hs⟩ := htraced
      rw [hanswers mv hmv] at hs
      exact hs.trans (Option.some.inj hreply)

end Replies

/-- **Inquiries agree, however they are interleaved.** What is kept is never replaced. Inquiries
that ask for the same return the same, which is what is kept, and which one of them has made. An
inquiry that raises has changed nothing. With one provider for all lookups, every reply is that
of a new resolver, also if failed lookups find nothing instead, and another answer to one key
bears on nothing else. An inquiry that nobody interrupts is a request to the resolver. -/
theorem inquiries_agree (requests : List Request)
    (hnames : ∀ r ∈ requests, (r.defaults.map Prod.fst).Nodup) (moves : List Move) :
    let d := (Desk.opening requests).run moves
    (∀ more r m, d.resolver.find? r = some m → (d.run more).resolver.find? r = some m) ∧
    (∀ q ∈ d.inquiries, ∀ m, q.stage = .returned m →
      d.resolver.find? q.request = some m ∧ MadeFor requests moves q.request m ∧
      ∀ q' ∈ d.inquiries, ∀ m', q.request.Same q'.request → q'.stage = .returned m' → m = m') ∧
    (∀ before mv after q fault, moves = before ++ mv :: after →
      d.inquiries[mv.inquiry]? = some q → q.stage = .raised fault →
      (((Desk.opening requests).run before).move mv).resolver =
        ((Desk.opening requests).run before).resolver) ∧
    (∀ provider : Provider, (∀ mv ∈ moves, mv.provider = fun _ => provider) →
      ∀ q ∈ d.inquiries, ∀ reply, q.reply? = some reply →
      (Resolver.resolve {} provider q.request).1.settings = reply ∧
      (Resolver.resolve {} provider.quiet q.request).1.settings = reply ∧
      ∀ provider' key s s', (∀ k, k ≠ key →
          provider q.request.scope k = provider' q.request.scope k) → reply = .ok s →
        (Resolver.resolve {} provider' q.request).1.settings = .ok s' →
        AgreeBut q.request.ruleId key s s') ∧
    ∀ i r (provider : Provider), d.inquiries[i]? = some { request := r } →
      ∃ q, (d.run (List.replicate 3 ⟨i, fun _ => provider⟩)).inquiries[i]? = some q ∧
        q.reply? = some (d.resolver.anonymous.resolve provider r).1.settings ∧
        (d.run (List.replicate 3 ⟨i, fun _ => provider⟩)).resolver.anonymous =
          (d.resolver.anonymous.resolve provider r).2 := by
  intro d
  have htraced : d.Traced requests moves := traced_run_opening requests moves
  refine ⟨fun more r m h => find?_run h more, ?_, ?_, ?_, fun i r provider hq =>
    undisturbed_run hq provider⟩
  · intro q hq m hstage
    have hkept := htraced.find?_of_returned hq hstage
    exact ⟨hkept, htraced.kept _ _ hkept, fun q' hq' m' hsame hstage' =>
      htraced.returned_eq_of_same hnames hq hq' hsame hstage hstage'⟩
  · intro before mv after q fault hmoves hq hstage
    refine resolver_move_of_raised after ?_ hstage
    have hsplit : d = (((Desk.opening requests).run before).move mv).run after := by
      show (Desk.opening requests).run moves = _
      rw [hmoves, run_append]
      rfl
    rw [← hsplit]
    exact hq
  · intro provider hmoves q hq reply hreply
    have hsettings := htraced.settings_of_reply hmoves hq hreply
    refine ⟨?_, ?_, ?_⟩
    · rw [settings_resolve (sound_empty provider), hsettings]
    · rw [settings_resolve (sound_empty provider.quiet), settings_quiet, hsettings]
    · intro provider' key s s' hother hok hs'
      rw [settings_resolve (sound_empty provider')] at hs'
      exact agreeBut_of_eq_ok hother (hsettings.trans hok) hs'

/-- Two inquiries that have both looked in vain and are answered differently: the second keeps
its settings first, and the first returns them. -/
theorem inquiries_agree_race :
    let first : Request := ⟨"SEAM011", "src/App.cs", [("b", 2), ("a", 1)]⟩
    let second : Request := ⟨"SEAM011", "src/App.cs", [("a", 1), ("b", 2)]⟩
    let moves : List Move := [⟨0, fun _ _ _ => .unset⟩, ⟨1, fun _ _ _ => .unset⟩,
      ⟨0, fun _ _ _ => .text "5"⟩, ⟨1, fun _ _ _ => .failed⟩,
      ⟨1, fun _ _ _ => .unset⟩, ⟨0, fun _ _ _ => .unset⟩]
    ∃ m m', ((Desk.opening [first, second]).run moves).inquiries =
        [⟨first, .returned m⟩, ⟨second, .returned m'⟩] ∧ m.maker = 1 ∧ m = m' := by
  intro first second moves
  have hnames : ∀ r ∈ [first, second], (r.defaults.map Prod.fst).Nodup := by decide
  have hsame : first.Same second := ⟨rfl, rfl, List.Perm.swap _ _ _⟩
  have hsort : sortDefaults [("a", 1), ("b", 2)] = [("a", 1), ("b", 2)] :=
    List.mergeSort_of_pairwise (by simp)
  have hsort' : sortDefaults [("b", 2), ("a", 1)] = [("a", 1), ("b", 2)] := by
    rw [sortDefaults_eq_of_perm (by decide) (List.Perm.swap _ _ _), hsort]
  have hfirst : (resolveWith first (Move.answers ⟨0, fun _ _ _ => .text "5"⟩ first)).settings =
      .ok ⟨"SEAM011", ["5"], ["5"], ["5"], [("a", 5), ("b", 5)]⟩ := by
    simp only [resolveWith, Request.normal, first, hsort']
    rfl
  have hsecond : (resolveWith second (Move.answers ⟨1, fun _ _ _ => .failed⟩ second)).settings =
      .ok ⟨"SEAM011", [], [], [], [("a", 1), ("b", 2)]⟩ := by
    simp only [resolveWith, Request.normal, second, hsort]
    rfl
  let made : Made := ⟨1, ⟨"SEAM011", [], [], [], [("a", 1), ("b", 2)]⟩⟩
  have hrun : ((Desk.opening [first, second]).run moves).inquiries =
      [⟨first, .returned made⟩, ⟨second, .returned made⟩] := by
    simp [moves, Desk.opening, Desk.run, Desk.move, Inquiry.step, Resolver.find?, Resolver.keep,
      hfirst, hsecond, Request.normal, first, second, hsort, hsort', made]
  obtain ⟨-, hagree, -⟩ := inquiries_agree [first, second] hnames moves
  refine ⟨made, made, hrun, rfl, ?_⟩
  exact (hagree ⟨first, .returned made⟩ (by simp [hrun]) made rfl).2.2
    ⟨second, .returned made⟩ (by simp [hrun]) made hsame rfl

end SeamLint.Settings
