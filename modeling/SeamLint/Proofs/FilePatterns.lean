import Mathlib.Data.List.Infix
import SeamLint.Proofs.EnclosingNamespaces
import SeamLint.Proofs.OptionLayers

set_option autoImplicit false

/-! # What file patterns match

A pattern is read part by part. The parts of literal text are its characters
(`glob_literal_append`), a star is a run, and a `[` begins a set if the text after it does
(`splitSet?_eq_some`). So the patterns that are mostly written have a plain meaning: all files of a
folder, all files with an ending, a name, a path (`patterns_match_by_shape`).

A star outside of sets is a part of its own. The parts before it are read in the same way whether
one or two stars follow (`exists_glob_append`), and two runs in a row are as good as one.
-/

namespace SeamLint.Text

/-! ## Sets -/

/-- What can stand between the brackets of a set: one character at least, of which only the first
may be a `]`. A `!` in front of it negates. -/
def IsInside (inside : List Char) : Prop :=
  ∃ c more, ']' ∉ more ∧ (inside = '!' :: c :: more ∨ c ≠ '!' ∧ inside = c :: more)

/-- The text up to the first `]` and the text after it. -/
def cutAtBracket? : List Char → Option (List Char × List Char)
  | [] => none
  | c :: cs =>
      if c = ']' then some ([], cs) else (cutAtBracket? cs).map fun cut => (c :: cut.1, cut.2)

/-- It is found by going through the characters that are no `]`. -/
theorem cutAtBracket?_eq (cs : List Char) :
    cutAtBracket? cs =
      match cs.dropWhile (· != ']') with
      | [] => none
      | _ :: rest => some (cs.takeWhile (· != ']'), rest) := by
  induction cs with
  | nil => rfl
  | cons c cs ih =>
      by_cases hc : c = ']'
      · simp [cutAtBracket?, hc]
      · rw [cutAtBracket?, if_neg hc, ih]
        simp only [List.dropWhile_cons, List.takeWhile_cons, bne_iff_ne, ne_eq, hc,
          not_false_eq_true, if_true]
        cases cs.dropWhile (· != ']') <;> rfl

theorem cutAtBracket?_eq_some {cs inside rest : List Char} :
    cutAtBracket? cs = some (inside, rest) ↔ ']' ∉ inside ∧ cs = inside ++ ']' :: rest := by
  induction cs generalizing inside with
  | nil => simp [cutAtBracket?]
  | cons c cs ih =>
      by_cases hc : c = ']'
      · cases inside with
        | nil => simp [cutAtBracket?, hc]
        | cons d inside =>
            have hne (h : ']' ∉ d :: inside) : c ≠ d := fun heq => h (by simp [← heq, hc])
            simp only [cutAtBracket?, hc, if_true]
            grind
      · cases inside with
        | nil => simp [cutAtBracket?, hc]
        | cons d inside =>
            simp only [cutAtBracket?, if_neg hc, Option.map_eq_some_iff, Prod.exists,
              Prod.mk.injEq, List.cons.injEq, List.cons_append, List.mem_cons, not_or]
            grind

/-- The number of characters at the beginning of a set among which a `]` does not close it. -/
def setHead : List Char → Nat
  | '!' :: ']' :: _ => 2
  | '!' :: _ => 1
  | ']' :: _ => 1
  | _ => 0

theorem splitSet?_eq (cs : List Char) :
    splitSet? cs =
      (cutAtBracket? (cs.drop (setHead cs))).map fun cut =>
        (cs.take (setHead cs) ++ cut.1, cut.2) := by
  rw [cutAtBracket?_eq]
  show (match (cs.drop (setHead cs)).dropWhile (· != ']') with
    | [] => none
    | _ :: rest =>
        some (cs.take (setHead cs) ++ (cs.drop (setHead cs)).takeWhile (· != ']'), rest)) = _
  cases (cs.drop (setHead cs)).dropWhile (· != ']') <;> rfl

/-- A set begins with a character, after a `!` or none, and is cut at the next `]`. -/
theorem splitSet?_negated (c : Char) (cs : List Char) :
    splitSet? ('!' :: c :: cs) = (cutAtBracket? cs).map fun cut => ('!' :: c :: cut.1, cut.2) := by
  rw [splitSet?_eq]
  by_cases hc : c = ']'
  · subst hc
    rfl
  · have hhead : setHead ('!' :: c :: cs) = 1 := by simp [setHead, hc]
    rw [hhead]
    simp [cutAtBracket?, hc, Function.comp_def]

theorem splitSet?_plain {c : Char} (hc : c ≠ '!') (cs : List Char) :
    splitSet? (c :: cs) = (cutAtBracket? cs).map fun cut => (c :: cut.1, cut.2) := by
  rw [splitSet?_eq]
  by_cases hbracket : c = ']'
  · subst hbracket
    rfl
  · have hhead : setHead (c :: cs) = 0 := by simp [setHead, hc, hbracket]
    rw [hhead]
    simp [cutAtBracket?, hbracket, Function.comp_def]

/-- What is cut off has no `]`, also if something is put in front of it. -/
theorem map_cut_eq_some (front : List Char) {cs inside rest : List Char} :
    ((cutAtBracket? cs).map fun cut => (front ++ cut.1, cut.2)) = some (inside, rest) ↔
      ∃ more, ']' ∉ more ∧ inside = front ++ more ∧ cs = more ++ ']' :: rest := by
  simp only [Option.map_eq_some_iff, Prod.exists, Prod.mk.injEq]
  constructor
  · rintro ⟨more, rest', hcut, rfl, rfl⟩
    obtain ⟨hmore, hcs⟩ := cutAtBracket?_eq_some.mp hcut
    exact ⟨more, hmore, rfl, hcs⟩
  · rintro ⟨more, hmore, rfl, hcs⟩
    exact ⟨more, rest, cutAtBracket?_eq_some.mpr ⟨hmore, hcs⟩, rfl, rfl⟩

/-- **A set is split off exactly if one begins here.** -/
theorem splitSet?_eq_some {cs inside rest : List Char} :
    splitSet? cs = some (inside, rest) ↔ IsInside inside ∧ cs = inside ++ ']' :: rest := by
  constructor
  · intro h
    cases cs with
    | nil => cases h
    | cons c cs =>
        by_cases hc : c = '!'
        · subst hc
          cases cs with
          | nil => cases h
          | cons c cs =>
              rw [splitSet?_negated] at h
              obtain ⟨more, hmore, rfl, rfl⟩ := (map_cut_eq_some ['!', c]).mp h
              exact ⟨⟨c, more, hmore, Or.inl rfl⟩, rfl⟩
        · rw [splitSet?_plain hc] at h
          obtain ⟨more, hmore, rfl, rfl⟩ := (map_cut_eq_some [c]).mp h
          exact ⟨⟨c, more, hmore, Or.inr ⟨hc, rfl⟩⟩, rfl⟩
  · rintro ⟨⟨c, more, hmore, rfl | ⟨hc, rfl⟩⟩, rfl⟩
    · show splitSet? ('!' :: c :: (more ++ ']' :: rest)) = _
      rw [splitSet?_negated]
      exact (map_cut_eq_some ['!', c]).mpr ⟨more, hmore, rfl, rfl⟩
    · show splitSet? (c :: (more ++ ']' :: rest)) = _
      rw [splitSet?_plain hc]
      exact (map_cut_eq_some [c]).mpr ⟨more, hmore, rfl, rfl⟩

/-- After a `[`, the text begins with the inside of a set and the `]` that closes it. -/
def BeginsSet (cs : List Char) : Prop :=
  ∃ inside rest, IsInside inside ∧ cs = inside ++ ']' :: rest

theorem splitSet?_eq_none {cs : List Char} (h : ¬BeginsSet cs) : splitSet? cs = none := by
  cases hsplit : splitSet? cs with
  | none => rfl
  | some cut => exact absurd ⟨cut.1, cut.2, splitSet?_eq_some.mp hsplit⟩ h

/-! ## Parts of a pattern -/

/-- Fuel for every character is enough. -/
theorem globFrom_eq {fuel fuel' : Nat} {cs : List Char} (h : cs.length ≤ fuel)
    (h' : cs.length ≤ fuel') : globFrom fuel cs = globFrom fuel' cs := by
  induction fuel generalizing fuel' cs with
  | zero =>
      obtain rfl := List.length_eq_zero_iff.mp (Nat.le_zero.mp h)
      cases fuel' <;> rfl
  | succ fuel ih =>
      cases cs with
      | nil => cases fuel' <;> rfl
      | cons c cs =>
          cases fuel' with
          | zero => cases h'
          | succ fuel' =>
              simp only [List.length_cons, Nat.add_le_add_iff_right] at h h'
              have hsame := ih h h'
              cases hsplit : splitSet? cs with
              | none => simp only [globFrom, hsplit, hsame]
              | some cut =>
                  -- what follows a set is shorter than what follows its bracket
                  obtain ⟨-, hcs⟩ := splitSet?_eq_some.mp hsplit
                  have hlength := congrArg List.length hcs
                  simp only [List.length_append, List.length_cons] at hlength
                  have hrest : globFrom fuel cut.2 = globFrom fuel' cut.2 :=
                    ih (by omega) (by omega)
                  simp only [globFrom, hsplit, hsame, hrest]

theorem glob_cons (c : Char) (cs : List Char) :
    glob (c :: cs) =
      if c = '*' then .run :: glob cs
      else if c = '?' then .any :: glob cs
      else if c = '[' then
        match splitSet? cs with
        | some (inside, rest) => setOf inside :: glob rest
        | none => .one '[' :: glob cs
      else .one c :: glob cs := by
  cases hsplit : splitSet? cs with
  | none => simp only [glob, List.length_cons, globFrom, hsplit, beq_iff_eq]
  | some cut =>
      obtain ⟨-, hcs⟩ := splitSet?_eq_some.mp hsplit
      have hlength := congrArg List.length hcs
      simp only [List.length_append, List.length_cons] at hlength
      have hrest : globFrom cs.length cut.2 = glob cut.2 := globFrom_eq (by omega) (Nat.le_refl _)
      simp only [glob, List.length_cons, globFrom, hsplit, beq_iff_eq, hrest]

theorem glob_star (cs : List Char) : glob ('*' :: cs) = .run :: glob cs := by
  rw [glob_cons, if_pos rfl]

/-- Outside sets, what a character stands for does not depend on what follows it. -/
theorem exists_glob_char {c : Char} (hc : c ≠ '[') :
    ∃ part, ∀ cs, glob (c :: cs) = part :: glob cs := by
  by_cases hstar : c = '*'
  · exact ⟨.run, fun cs => by rw [glob_cons, if_pos hstar]⟩
  · by_cases hany : c = '?'
    · exact ⟨.any, fun cs => by rw [glob_cons, if_neg hstar, if_pos hany]⟩
    · exact ⟨.one c, fun cs => by rw [glob_cons, if_neg hstar, if_neg hany, if_neg hc]⟩

theorem glob_set {inside : List Char} (h : IsInside inside) (rest : List Char) :
    glob ('[' :: (inside ++ ']' :: rest)) = setOf inside :: glob rest := by
  have hsplit : splitSet? (inside ++ ']' :: rest) = some (inside, rest) :=
    splitSet?_eq_some.mpr ⟨h, rfl⟩
  rw [glob_cons, hsplit]
  rfl

theorem glob_bracket {cs : List Char} (h : ¬BeginsSet cs) :
    glob ('[' :: cs) = .one '[' :: glob cs := by
  rw [glob_cons, splitSet?_eq_none h]
  rfl

/-- The text has none of the characters that have a meaning in patterns. -/
def IsLiteral (text : List Char) : Prop := ∀ c ∈ text, c ≠ '*' ∧ c ≠ '?' ∧ c ≠ '['

/-- Literal text stands for itself, character by character. -/
theorem glob_literal_append {text : List Char} (h : IsLiteral text) (rest : List Char) :
    glob (text ++ rest) = text.map .one ++ glob rest := by
  induction text with
  | nil => rfl
  | cons c text ih =>
      obtain ⟨⟨hstar, hany, hset⟩, htext⟩ := List.forall_mem_cons.mp h
      rw [List.cons_append, glob_cons, if_neg hstar, if_neg hany, if_neg hset, ih htext]
      rfl

theorem glob_literal {text : List Char} (h : IsLiteral text) : glob text = text.map .one := by
  have happend := glob_literal_append h []
  rwa [List.append_nil, show glob [] = [] from rfl, List.append_nil] at happend

/-! ## Texts that parts describe -/

theorem someEnd_iff {p : List Char → Bool} {cs : List Char} :
    someEnd p cs = true ↔ ∃ ending, ending <:+ cs ∧ p ending = true := by
  induction cs with
  | nil => simp [someEnd]
  | cons c cs ih =>
      simp only [someEnd, Bool.or_eq_true, ih, List.suffix_cons_iff, or_and_right, exists_or,
        exists_eq_left]

theorem matchesGlob_run {parts : List Glob} {cs : List Char} :
    matchesGlob (.run :: parts) cs = true ↔
      ∃ ending, ending <:+ cs ∧ matchesGlob parts ending = true := by
  rw [matchesGlob, someEnd_iff]

/-- Two runs in a row are as good as one. -/
theorem matchesGlob_run_run (parts : List Glob) (cs : List Char) :
    matchesGlob (.run :: .run :: parts) cs = matchesGlob (.run :: parts) cs := by
  rw [Bool.eq_iff_iff, matchesGlob_run, matchesGlob_run]
  constructor
  · rintro ⟨ending, hending, hmatches⟩
    obtain ⟨ending', hending', hparts⟩ := matchesGlob_run.mp hmatches
    exact ⟨ending', hending'.trans hending, hparts⟩
  · rintro ⟨ending, hending, hparts⟩
    exact ⟨ending, hending, matchesGlob_run.mpr ⟨ending, List.suffix_refl _, hparts⟩⟩

/-- The beginning of a pattern does not look at what follows it. -/
theorem matchesGlob_append_congr {parts parts' : List Glob}
    (h : ∀ cs, matchesGlob parts cs = matchesGlob parts' cs) (front : List Glob) (cs : List Char) :
    matchesGlob (front ++ parts) cs = matchesGlob (front ++ parts') cs := by
  induction front generalizing cs with
  | nil => exact h cs
  | cons part front ih =>
      have hrest : matchesGlob (front ++ parts) = matchesGlob (front ++ parts') := funext ih
      cases part <;> cases cs <;> simp only [List.cons_append, matchesGlob, hrest]

theorem matchesGlob_ones_append {text : List Char} {parts : List Glob} {cs : List Char} :
    matchesGlob (text.map .one ++ parts) cs = true ↔
      ∃ rest, cs = text ++ rest ∧ matchesGlob parts rest = true := by
  induction text generalizing cs with
  | nil => simp
  | cons c text ih =>
      cases cs with
      | nil => simp [matchesGlob]
      | cons d cs =>
          simp only [List.map_cons, List.cons_append, matchesGlob, Glob.accepts, Bool.and_eq_true,
            beq_iff_eq, ih, List.cons.injEq]
          grind

theorem matchesGlob_ones {text cs : List Char} :
    matchesGlob (text.map .one) cs = true ↔ cs = text := by
  have happend := @matchesGlob_ones_append text [] cs
  rw [List.append_nil] at happend
  simp [happend, matchesGlob]

theorem matchesGlob_runs {cs : List Char} : matchesGlob [.run] cs = true :=
  matchesGlob_run.mpr ⟨[], List.nil_suffix, rfl⟩

/-! ## Patterns of a simple shape -/

section Shapes

variable {text path : String} (h : IsLiteral text.toList)

include h

theorem matchesPattern_literal : matchesPattern text path = true ↔ path = text := by
  rw [matchesPattern, glob_literal h, matchesGlob_ones]
  exact String.toList_inj

theorem matchesPattern_ending :
    matchesPattern ("*" ++ text) path = true ↔ text.toList <:+ path.toList := by
  have hpattern : ("*" ++ text).toList = '*' :: text.toList := by simp
  rw [matchesPattern, hpattern, glob_star, glob_literal h, matchesGlob_run]
  simp only [matchesGlob_ones, exists_eq_right]

theorem matchesPattern_folder {stars : String} (hstars : stars = "/*" ∨ stars = "/**") :
    matchesPattern (text ++ stars) path = true ↔ (text ++ "/").toList <+: path.toList := by
  have hfolder : IsLiteral (text ++ "/").toList := by
    rw [String.toList_append]
    exact List.forall_mem_append.mpr ⟨h, List.forall_mem_singleton.mpr (by decide)⟩
  -- a folder, its slash and any run: of two stars, the second adds nothing
  have hmatches : matchesPattern (text ++ stars) path =
      matchesGlob ((text ++ "/").toList.map .one ++ [.run]) path.toList := by
    rcases hstars with rfl | rfl
    · have hpattern : (text ++ "/*").toList = (text ++ "/").toList ++ ['*'] := by simp
      rw [matchesPattern, hpattern, glob_literal_append hfolder]
      rfl
    · have hpattern : (text ++ "/**").toList = (text ++ "/").toList ++ ['*', '*'] := by simp
      rw [matchesPattern, hpattern, glob_literal_append hfolder]
      exact matchesGlob_append_congr (matchesGlob_run_run []) _ _
  rw [hmatches, matchesGlob_ones_append]
  simp only [matchesGlob_runs, and_true]
  exact exists_congr fun rest => eq_comm

end Shapes

/-! ## The name of a file -/

/-- The text is what stands in the path after its last slash, or all of it if it has none. -/
def IsFileName (name path : List Char) : Prop :=
  '/' ∉ name ∧ (path = name ∨ ∃ folder, path = folder ++ '/' :: name)

theorem afterLast_eq_iff {path name : List Char} :
    afterLast '/' path = name ↔ IsFileName name path := by
  have hnone {cs : List Char} (h : '/' ∉ cs) : afterLast '/' cs = cs := by
    have hall : ∀ c ∈ cs.reverse, (c != '/') = true := fun c hc =>
      bne_iff_ne.mpr fun heq => h (heq ▸ List.mem_reverse.mp hc)
    rw [afterLast, List.takeWhile_eq_self_iff.mpr hall, List.reverse_reverse]
  constructor
  · rintro rfl
    rcases beforeLast?_cases '/' path with ⟨hmem, -⟩ | ⟨folder, name, hname, rfl, -⟩
    · rw [hnone hmem]
      exact ⟨hmem, Or.inl rfl⟩
    · rw [afterLast_append_cons hname]
      exact ⟨hname, Or.inr ⟨folder, rfl⟩⟩
  · rintro ⟨hname, rfl | ⟨folder, rfl⟩⟩
    · exact hnone hname
    · exact afterLast_append_cons hname

theorem IsFileName.suffix {name path : List Char} (h : IsFileName name path) : name <:+ path := by
  rcases h with ⟨-, rfl | ⟨folder, rfl⟩⟩
  · exact List.suffix_refl _
  · exact ⟨folder ++ ['/'], by simp⟩

/-! ## Stars outside sets -/

/-- The text is a run of whole parts of the pattern that goes on with `after`: no set that begins
in it reaches beyond it. -/
inductive WholeParts (after : List Char) : List Char → Prop
  | nil : WholeParts after []
  | char {c : Char} {front : List Char} : c ≠ '[' → WholeParts after front →
      WholeParts after (c :: front)
  | set {inside front : List Char} : IsInside inside → WholeParts after front →
      WholeParts after ('[' :: (inside ++ ']' :: front))
  | bracket {front : List Char} : ¬BeginsSet (front ++ after) → WholeParts after front →
      WholeParts after ('[' :: front)

/-- The place between the two texts of a pattern is inside a set. -/
def InSet (front after : List Char) : Prop :=
  ∃ outer inner more rest, front = outer ++ '[' :: inner ∧ after = more ++ ']' :: rest ∧
    IsInside (inner ++ more) ∧ WholeParts ('[' :: (inner ++ after)) outer

/-- Every place of a pattern is inside a set or between two parts. -/
theorem wholeParts_or_inSet (front after : List Char) :
    WholeParts after front ∨ InSet front after := by
  match front with
  | [] => exact Or.inl .nil
  | c :: front =>
      by_cases hc : c = '['
      · subst hc
        by_cases hset : BeginsSet (front ++ after)
        · -- a set begins here, and it ends beyond the place or before it
          obtain ⟨inside, rest, hinside, happend⟩ := hset
          obtain ⟨more, rfl, hafter⟩ | ⟨closed, rfl, hclosed⟩ :=
            List.append_eq_append_iff.mp happend
          · exact Or.inr ⟨[], front, more, rest, rfl, hafter, hinside, .nil⟩
          · cases closed with
            | nil =>
                refine Or.inr ⟨[], inside, [], rest, by simp, hclosed.symm, ?_, .nil⟩
                rwa [List.append_nil]
            | cons d front =>
                obtain ⟨rfl, rfl⟩ := List.cons.inj hclosed
                rcases wholeParts_or_inSet front after with hwhole |
                  ⟨outer, inner, more, rest, rfl, hafter, hmore, houter⟩
                · exact Or.inl (.set hinside hwhole)
                · exact Or.inr ⟨'[' :: (inside ++ ']' :: outer), inner, more, rest, by simp, hafter,
                    hmore, .set hinside houter⟩
        · rcases wholeParts_or_inSet front after with hwhole |
            ⟨outer, inner, more, rest, rfl, hafter, hmore, houter⟩
          · exact Or.inl (.bracket hset hwhole)
          · refine Or.inr ⟨'[' :: outer, inner, more, rest, rfl, hafter, hmore, .bracket ?_ houter⟩
            simpa using hset
      · rcases wholeParts_or_inSet front after with hwhole |
          ⟨outer, inner, more, rest, rfl, hafter, hmore, houter⟩
        · exact Or.inl (.char hc hwhole)
        · exact Or.inr ⟨c :: outer, inner, more, rest, rfl, hafter, hmore, .char hc houter⟩
termination_by front.length

/-- Inside a set, one of two stars can be left out. -/
theorem isInside_of_stars {front after : List Char} (h : IsInside (front ++ '*' :: '*' :: after)) :
    IsInside (front ++ '*' :: after) := by
  obtain ⟨c, more, hmore, h⟩ := h
  match front with
  | [] =>
      rcases h with h | ⟨hc, h⟩
      · cases h
      · cases h
        exact ⟨'*', after, by simpa using hmore, Or.inr ⟨hc, rfl⟩⟩
  | [d] =>
      rcases h with h | ⟨hc, h⟩
      · cases h
        exact ⟨'*', after, by simpa using hmore, Or.inl rfl⟩
      · cases h
        exact ⟨c, '*' :: after, by simpa using hmore, Or.inr ⟨hc, rfl⟩⟩
  | d :: e :: front =>
      rcases h with h | ⟨hc, h⟩
      · cases h
        exact ⟨c, front ++ '*' :: after, by simpa using hmore, Or.inl rfl⟩
      · cases h
        exact ⟨c, e :: (front ++ '*' :: after), by simpa using hmore, Or.inr ⟨hc, rfl⟩⟩

/-- A second star begins no new set. -/
theorem beginsSet_of_stars {front after : List Char}
    (h : BeginsSet (front ++ '*' :: '*' :: after)) : BeginsSet (front ++ '*' :: after) := by
  obtain ⟨inside, rest, hinside, happend⟩ := h
  obtain ⟨more, rfl, hafter⟩ | ⟨closed, rfl, hclosed⟩ := List.append_eq_append_iff.mp happend
  · -- the set is closed after the stars
    match more with
    | [] => cases hafter
    | [_] => cases hafter
    | _ :: _ :: more =>
        cases hafter
        exact ⟨front ++ '*' :: more, rest, isInside_of_stars hinside, by simp⟩
  · -- the set is closed before the stars
    cases closed with
    | nil => cases hclosed
    | cons d closed =>
        obtain ⟨rfl, rfl⟩ := List.cons.inj hclosed
        exact ⟨inside, closed ++ '*' :: after, hinside, by simp⟩

/-- Whole parts are read in the same way, whatever follows, as long as it begins no new sets. -/
theorem exists_glob_append {front after after' : List Char} (h : WholeParts after front)
    (hsets : ∀ cs, BeginsSet (cs ++ after') → BeginsSet (cs ++ after)) :
    ∃ parts, glob (front ++ after) = parts ++ glob after ∧
      glob (front ++ after') = parts ++ glob after' := by
  induction h with
  | nil => exact ⟨[], rfl, rfl⟩
  | @char c front hc _ ih =>
      obtain ⟨parts, hparts, hparts'⟩ := ih
      obtain ⟨part, hpart⟩ := exists_glob_char hc
      refine ⟨part :: parts, ?_, ?_⟩
      · rw [List.cons_append, hpart, hparts, List.cons_append]
      · rw [List.cons_append, hpart, hparts', List.cons_append]
  | @set inside front hinside _ ih =>
      obtain ⟨parts, hparts, hparts'⟩ := ih
      refine ⟨setOf inside :: parts, ?_, ?_⟩
      · rw [List.cons_append, List.append_assoc, List.cons_append, glob_set hinside, hparts,
          List.cons_append]
      · rw [List.cons_append, List.append_assoc, List.cons_append, glob_set hinside, hparts',
          List.cons_append]
  | @bracket front hset _ ih =>
      obtain ⟨parts, hparts, hparts'⟩ := ih
      refine ⟨.one '[' :: parts, ?_, ?_⟩
      · rw [List.cons_append, glob_bracket hset, hparts, List.cons_append]
      · rw [List.cons_append, glob_bracket (mt (hsets front) hset), hparts', List.cons_append]

/-- **A star outside sets is as good as two.** -/
theorem matchesGlob_stars {front after : List Char} (h : ¬InSet front ('*' :: after))
    (cs : List Char) :
    matchesGlob (glob (front ++ '*' :: '*' :: after)) cs =
      matchesGlob (glob (front ++ '*' :: after)) cs := by
  have hwhole := (wholeParts_or_inSet front ('*' :: after)).resolve_right h
  obtain ⟨parts, hone, htwo⟩ : ∃ parts,
      glob (front ++ '*' :: after) = parts ++ glob ('*' :: after) ∧
      glob (front ++ '*' :: '*' :: after) = parts ++ glob ('*' :: '*' :: after) :=
    exists_glob_append hwhole fun _ => beginsSet_of_stars
  rw [hone, htwo, glob_star, glob_star]
  exact matchesGlob_append_congr (matchesGlob_run_run _) parts cs

end SeamLint.Text

namespace SeamLint.Settings

open SeamLint.Text

/-! ## Files that a section holds for -/

theorem appliesTo_iff {pattern scope : String} {entries : Entries} :
    Section.appliesTo ⟨pattern, entries⟩ scope = true ↔
      matchesPattern pattern (replace '\\' '/' scope) = true ∨
        '/' ∉ pattern.toList ∧ ∃ name, IsFileName name (replace '\\' '/' scope).toList ∧
          matchesPattern pattern (String.ofList name) = true := by
  simp only [Section.appliesTo, Bool.or_eq_true, Bool.and_eq_true, Bool.not_eq_true',
    ← Bool.not_eq_true, List.contains_iff_mem, ← afterLast_eq_iff, exists_eq_left']

section Applies

variable {text scope : String} {entries : Entries} (h : IsLiteral text.toList)

include h

theorem appliesTo_folder {stars : String} (hstars : stars = "/*" ∨ stars = "/**") :
    Section.appliesTo ⟨text ++ stars, entries⟩ scope = true ↔
      (text ++ "/").toList <+: (replace '\\' '/' scope).toList := by
  have hslash : '/' ∈ (text ++ stars).toList := by
    rcases hstars with rfl | rfl <;> simp
  rw [appliesTo_iff, matchesPattern_folder h hstars]
  exact or_iff_left fun hname => hname.1 hslash

theorem appliesTo_ending :
    Section.appliesTo ⟨"*" ++ text, entries⟩ scope = true ↔
      text.toList <:+ (replace '\\' '/' scope).toList := by
  rw [appliesTo_iff, matchesPattern_ending h]
  refine or_iff_left_of_imp ?_
  -- what the name of the file ends with is what the path ends with
  rintro ⟨-, name, hname, hends⟩
  rw [matchesPattern_ending h, String.toList_ofList] at hends
  exact hends.trans hname.suffix

theorem appliesTo_name (hslash : '/' ∉ text.toList) :
    Section.appliesTo ⟨text, entries⟩ scope = true ↔
      IsFileName text.toList (replace '\\' '/' scope).toList := by
  rw [appliesTo_iff, matchesPattern_literal h]
  constructor
  · rintro (hpath | ⟨-, name, hname, hmatches⟩)
    · rw [hpath]
      exact ⟨hslash, Or.inl rfl⟩
    · rw [matchesPattern_literal h] at hmatches
      rwa [← hmatches, String.toList_ofList]
  · intro hname
    refine Or.inr ⟨hslash, _, hname, ?_⟩
    rw [matchesPattern_literal h, String.ofList_toList]

theorem appliesTo_whole (hslash : '/' ∈ text.toList) :
    Section.appliesTo ⟨text, entries⟩ scope = true ↔ replace '\\' '/' scope = text := by
  rw [appliesTo_iff, matchesPattern_literal h]
  exact or_iff_left fun hname => hname.1 hslash

end Applies

theorem appliesTo_stars {front after : List Char} (h : ¬InSet front ('*' :: after)) (scope : String)
    (entries : Entries) :
    Section.appliesTo ⟨String.ofList (front ++ '*' :: '*' :: after), entries⟩ scope =
      Section.appliesTo ⟨String.ofList (front ++ '*' :: after), entries⟩ scope := by
  have hmatches (path : String) :
      matchesPattern (String.ofList (front ++ '*' :: '*' :: after)) path =
        matchesPattern (String.ofList (front ++ '*' :: after)) path := by
    rw [matchesPattern, matchesPattern, String.toList_ofList, String.toList_ofList]
    exact matchesGlob_stars h path.toList
  have hslash : (front ++ '*' :: '*' :: after).contains '/' =
      (front ++ '*' :: after).contains '/' := by
    rw [Bool.eq_iff_iff, List.contains_iff_mem, List.contains_iff_mem]
    simp
  simp only [Section.appliesTo, hmatches, String.toList_ofList, hslash]

/-- **Patterns mean what their shapes say.** Let `path` be the path of a file with slashes for
backslashes. A literal folder with `/*` or `/**` after it matches the paths that begin with the
folder and a slash, a star with a literal ending after it those that end so, a literal name those
whose last part it is, and any other literal text itself. A star that is not in a set can always be
written twice. -/
theorem patterns_match_by_shape (scope : String) (entries : Entries) :
    let path := replace '\\' '/' scope
    (∀ folder, IsLiteral folder.toList →
      (Section.appliesTo ⟨folder ++ "/*", entries⟩ scope = true ↔
        (folder ++ "/").toList <+: path.toList) ∧
      (Section.appliesTo ⟨folder ++ "/**", entries⟩ scope = true ↔
        (folder ++ "/").toList <+: path.toList)) ∧
    (∀ ending, IsLiteral ending.toList →
      (Section.appliesTo ⟨"*" ++ ending, entries⟩ scope = true ↔ ending.toList <:+ path.toList)) ∧
    (∀ name, IsLiteral name.toList → '/' ∉ name.toList →
      (Section.appliesTo ⟨name, entries⟩ scope = true ↔ IsFileName name.toList path.toList)) ∧
    (∀ whole, IsLiteral whole.toList → '/' ∈ whole.toList →
      (Section.appliesTo ⟨whole, entries⟩ scope = true ↔ path = whole)) ∧
    ∀ front after, ¬InSet front ('*' :: after) →
      Section.appliesTo ⟨String.ofList (front ++ '*' :: '*' :: after), entries⟩ scope =
        Section.appliesTo ⟨String.ofList (front ++ '*' :: after), entries⟩ scope := by
  intro path
  exact ⟨fun folder h => ⟨appliesTo_folder h (Or.inl rfl), appliesTo_folder h (Or.inr rfl)⟩,
    fun ending h => appliesTo_ending h, fun name h hslash => appliesTo_name h hslash,
    fun whole h hslash => appliesTo_whole h hslash,
    fun front after h => appliesTo_stars h scope entries⟩

/-- A path with backslashes against patterns of every shape. In the last one, a star stands in a
set and another one after it. -/
theorem patterns_match_by_shape_backslashes :
    let applies (pattern : String) : Bool := Section.appliesTo ⟨pattern, []⟩ "src\\App\\Main.cs"
    applies ("src" ++ "/*") = true ∧ ¬applies ("App" ++ "/**") = true ∧
      applies ("*" ++ "n.cs") = true ∧ applies "Main.cs" = true ∧
      applies "src/App/Main.cs" = true ∧ ¬applies "src\\App/Main.cs" = true ∧
      applies (String.ofList ("[*s]".toList ++ '*' :: '*' :: ".cs".toList)) =
        applies (String.ofList ("[*s]".toList ++ '*' :: ".cs".toList)) := by
  intro applies
  obtain ⟨hfolder, hending, hname, hwhole, hstars⟩ :=
    patterns_match_by_shape "src\\App\\Main.cs" []
  have hpath : replace '\\' '/' "src\\App\\Main.cs" = "src/App/Main.cs" := by decide
  have houtside : ¬InSet "[*s]".toList ('*' :: ".cs".toList) := by
    rintro ⟨outer, inner, more, rest, -, hafter, -⟩
    have hmem : ']' ∈ more ++ ']' :: rest := by simp
    rw [← hafter] at hmem
    simp at hmem
  rw [hpath] at hfolder hending hname hwhole
  refine ⟨(hfolder "src" ?_).1.mpr ?_, mt (hfolder "App" ?_).2.mp ?_, (hending "n.cs" ?_).mpr ?_,
    (hname "Main.cs" ?_ ?_).mpr ⟨?_, Or.inr ⟨"src/App".toList, ?_⟩⟩,
    (hwhole "src/App/Main.cs" ?_ ?_).mpr rfl, mt (hwhole "src\\App/Main.cs" ?_ ?_).mp ?_,
    hstars _ _ houtside⟩
  all_goals simp [IsLiteral, List.suffix_iff_eq_drop]

end SeamLint.Settings
