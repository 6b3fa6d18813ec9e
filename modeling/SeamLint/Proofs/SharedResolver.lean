import Mathlib.Data.List.Basic
import SeamLint.Settings.Resolver

set_option autoImplicit false

/-! # What a resolver keeps cannot be seen

A resolver that starts empty only ever keeps what its provider says (`Resolver.Sound`), no
matter in which order requests come in. Its answers are therefore those of a provider that
is asked afresh every time (`settings_resolve`), and this stays so when the look-up of a
request and the keeping of its settings are two separate steps with others in between
(`find?_sound`, `keep_sound`).
-/

namespace SeamLint.Settings

/-! ## Requests -/

/-- Settings depend on a request only through its normal form. -/
theorem resolve_eq_of_normal_eq (provider : Provider) {r r' : Request} (h : r.normal = r'.normal) :
    resolve provider r = resolve provider r' := by
  obtain ⟨hid, hscope, -⟩ := Request.mk.inj h
  unfold resolve resolveWith
  rw [h, hid, hscope]

/-! ## The invariant -/

/-- Everything that the resolver keeps is what the provider says. -/
def Resolver.Sound (resolver : Resolver) (provider : Provider) : Prop :=
  ∀ (r : Request) (s : RuleSettings), (r.normal, s) ∈ resolver.known →
    (Settings.resolve provider r).settings = .ok s

theorem sound_empty (provider : Provider) : Resolver.Sound {} provider := by
  intro r s h
  cases h

section

variable {resolver : Resolver} {provider : Provider}

theorem find?_sound (h : resolver.Sound provider) {r : Request} {s : RuleSettings}
    (hfind : resolver.find? r = some s) : (resolve provider r).settings = .ok s := by
  obtain ⟨entry, hentry, rfl⟩ := Option.map_eq_some_iff.mp hfind
  have hkey : entry.1 = r.normal := by simpa using List.find?_some hentry
  refine h r entry.2 ?_
  rw [← hkey]
  exact List.mem_of_find?_eq_some hentry

/-- Settings that come from the provider are kept as they are, by whomever they were kept
first. -/
theorem keep_fst_of_sound (h : resolver.Sound provider) {r : Request} {s : RuleSettings}
    (hs : (resolve provider r).settings = .ok s) : (resolver.keep r s).1 = s := by
  unfold Resolver.keep
  cases hfind : resolver.find? r with
  | none => rfl
  | some kept =>
      have hkept := find?_sound h hfind
      rw [hs] at hkept
      exact (Except.ok.inj hkept).symm

theorem keep_sound (h : resolver.Sound provider) {r : Request} {s : RuleSettings}
    (hs : (resolve provider r).settings = .ok s) : (resolver.keep r s).2.Sound provider := by
  unfold Resolver.keep
  cases hfind : resolver.find? r with
  | some kept => exact h
  | none =>
      intro r' s' hmem
      rcases List.mem_append.mp hmem with hold | hnew
      · exact h r' s' hold
      · obtain ⟨hnormal, rfl⟩ := Prod.mk.inj (List.mem_singleton.mp hnew)
        rw [resolve_eq_of_normal_eq provider hnormal, hs]

/-! ## Whole requests -/

/-- **A resolver answers as if every request were resolved afresh.** -/
theorem settings_resolve (h : resolver.Sound provider) (r : Request) :
    (resolver.resolve provider r).1.settings = (resolve provider r).settings := by
  unfold Resolver.resolve
  cases hfind : resolver.find? r with
  | some kept => exact (find?_sound h hfind).symm
  | none =>
      cases hs : (resolve provider r).settings with
      | error fault => simp only [hs]
      | ok s => simp only [hs, keep_fst_of_sound h hs]

end

end SeamLint.Settings
