import SeamLint.Proofs.JsonRoundTrip
import SeamLint.Scan.Fault

set_option autoImplicit false

/-! # Documents in files

What is written of a document is ASCII and has no carriage returns (`isAsciiText_prettyAt`), so
neither decoding its bytes nor joining its line breaks changes it. A file that holds the bytes of a
document is therefore read as that document (`parseDocument_pretty`).
-/

namespace SeamLint.Text

/-- The character is a byte of its own, and stays what it is when line breaks are joined. -/
def isAscii (c : Char) : Bool := c.toNat < 128 && c != '\r'

/-- The text as bytes, one for each character. -/
def asciiBytes (text : String) : List UInt8 := text.toList.map Char.toUInt8

theorem decodeUtf8From_ascii {cs : List Char} (h : ∀ c ∈ cs, isAscii c = true) (position : Nat) :
    decodeUtf8From position none (cs.map Char.toUInt8) = .ok cs := by
  induction cs generalizing position with
  | nil => rfl
  | cons c cs ih =>
    rw [List.forall_mem_cons] at h
    have hsmall : c.toNat < 128 := by
      simp only [isAscii, Bool.and_eq_true, decide_eq_true_eq] at h
      exact h.1.1
    have hbyte : c.toUInt8.toNat = c.toNat := by
      show c.toNat % 256 = c.toNat
      exact Nat.mod_eq_of_lt (by omega)
    rw [List.map_cons, decodeUtf8From]
    simp only [hbyte, hsmall, if_true, ih h.2, Char.ofNat_toNat]
    rfl

theorem lineFeeds_ascii {cs : List Char} (h : ∀ c ∈ cs, isAscii c = true) : lineFeeds cs = cs := by
  induction cs with
  | nil => rfl
  | cons c cs ih =>
    rw [List.forall_mem_cons] at h
    have hc : c ≠ '\r' := by
      rintro rfl
      exact absurd h.1 (by decide)
    rw [lineFeeds, ih h.2]
    exact hc

end SeamLint.Text

namespace SeamLint.Files

open SeamLint.Text

theorem readText_of_find {d : Disk} {p : Path} {place : List String} {text : String}
    (hfind : d.find p = .ok (place, .file (asciiBytes text)))
    (h : ∀ c ∈ text.toList, isAscii c = true) : d.readText p = .ok text := by
  have hdecode : decodeUtf8 (asciiBytes text) = .ok text.toList := decodeUtf8From_ascii h 0
  simp only [Disk.readText, hfind, hdecode, lineFeeds_ascii h, String.ofList_toList]

end SeamLint.Files

namespace SeamLint.Json

open SeamLint.Data SeamLint.Number SeamLint.Text

/-! ## What is written is ASCII -/

theorem isAscii_of_mem_unitEscape {u : Nat} (hu : u < 0x10000) :
    ∀ c ∈ unitEscape u, isAscii c = true := by
  have hdigit : ∀ d < 16, isAscii d.digitChar = true := by decide
  unfold unitEscape
  rw [zeroPad_unit hu]
  simp only [List.forall_mem_cons, List.not_mem_nil, false_implies, implies_true, and_true]
  exact ⟨rfl, rfl, hdigit _ (by omega), hdigit _ (by omega), hdigit _ (by omega),
    hdigit _ (by omega)⟩

theorem isAscii_of_escaped? {letter c : Char} (h : escaped? letter = some c) :
    isAscii letter = true := by
  unfold escaped? at h
  split at h
  all_goals first | rfl | cases h

theorem isAscii_of_mem_writtenChar (x : Char) : ∀ c ∈ writtenChar x, isAscii c = true := by
  rcases writtenChar_cases x with ⟨letter, -, hescaped, hwritten⟩ |
    ⟨-, -, hplain, hwritten⟩ | ⟨hsmall, hwritten⟩ | ⟨hlarge, hwritten⟩
  · rw [hwritten, List.forall_mem_cons, List.forall_mem_singleton]
    exact ⟨rfl, isAscii_of_escaped? hescaped⟩
  · have hreturn : x ≠ '\r' := by
      rintro rfl
      exact absurd hplain (by decide)
    have hsmall : x.toNat < 128 := by omega
    rw [hwritten, List.forall_mem_singleton]
    simp [isAscii, hreturn, hsmall]
  · rw [hwritten]
    exact isAscii_of_mem_unitEscape hsmall
  · have hvalid : x.toNat < 0xd800 ∨ 0xdfff < x.toNat ∧ x.toNat < 0x110000 := x.valid
    rw [hwritten, List.forall_mem_append]
    exact ⟨isAscii_of_mem_unitEscape (by omega), isAscii_of_mem_unitEscape (by omega)⟩

/-- All characters of the text are ASCII. -/
def IsAsciiText (s : String) : Prop := ∀ c ∈ s.toList, isAscii c = true

theorem isAsciiText_append {s t : String} (hs : IsAsciiText s) (ht : IsAsciiText t) :
    IsAsciiText (s ++ t) := by
  unfold IsAsciiText
  rw [String.toList_append, List.forall_mem_append]
  exact ⟨hs, ht⟩

theorem isAsciiText_writtenText (s : String) : IsAsciiText (writtenText s) := by
  unfold IsAsciiText writtenText
  rw [String.toList_ofList]
  simp only [List.cons_append, List.forall_mem_cons, List.forall_mem_append,
    List.forall_mem_flatMap, List.not_mem_nil, false_implies, implies_true, and_true]
  exact ⟨rfl, fun x _ => isAscii_of_mem_writtenChar x, rfl⟩

theorem isAsciiText_toString (n : Int) : IsAsciiText (toString n) := by
  intro c hc
  rcases isDigit_of_mem_toString hc with rfl | hdigit
  · rfl
  · have hrange : 48 ≤ c.toNat ∧ c.toNat ≤ 57 := Char.isDigit_iff_toNat.mp hdigit
    have hreturn : c ≠ '\r' := by
      rintro rfl
      exact absurd hrange (by decide)
    have hsmall : c.toNat < 128 := by omega
    simp [isAscii, hreturn, hsmall]

theorem isAsciiText_newLine (level : Nat) : IsAsciiText (newLine level) := by
  unfold IsAsciiText newLine
  rw [String.toList_ofList, List.forall_mem_cons]
  refine ⟨rfl, fun c hc => ?_⟩
  rw [List.eq_of_mem_replicate hc]
  rfl

theorem isAsciiText_join {separator : String} {parts : List String}
    (hseparator : IsAsciiText separator) (hparts : ∀ part ∈ parts, IsAsciiText part) :
    IsAsciiText (join separator parts) := by
  cases parts with
  | nil =>
    intro c hc
    cases hc
  | cons part parts =>
    rw [List.forall_mem_cons] at hparts
    unfold IsAsciiText
    rw [toList_join_cons, List.forall_mem_append, List.forall_mem_flatMap]
    refine ⟨hparts.1, fun p hp => ?_⟩
    rw [List.forall_mem_append]
    exact ⟨hseparator, hparts.2 p hp⟩

theorem isAsciiText_bracketed {opening closing : String} (level : Nat) {parts : List String}
    (hopening : IsAsciiText opening) (hclosing : IsAsciiText closing)
    (hparts : ∀ part ∈ parts, IsAsciiText part) :
    IsAsciiText (bracketed opening closing level parts) := by
  have hcomma : IsAsciiText "," := by simp [IsAsciiText, isAscii]
  have hline := isAsciiText_newLine (level + 1)
  have hjoin : IsAsciiText (join ("," ++ newLine (level + 1)) parts) :=
    isAsciiText_join (isAsciiText_append hcomma hline) hparts
  have hbegin : IsAsciiText (opening ++ newLine (level + 1)) := isAsciiText_append hopening hline
  unfold bracketed
  exact isAsciiText_append (isAsciiText_append (isAsciiText_append hbegin hjoin)
    (isAsciiText_newLine level)) hclosing

/-- **What is written of a document is ASCII.** -/
theorem isAsciiText_prettyAt {v : Value} (h : IsKept v) (level : Nat) :
    IsAsciiText (prettyAt level v) := by
  induction h generalizing level with
  | null => simp [prettyAt, writtenScalar, IsAsciiText, isAscii]
  | bool b => cases b <;> simp [prettyAt, writtenScalar, IsAsciiText, isAscii]
  | @int n _ => exact isAsciiText_toString n
  | text s => exact isAsciiText_writtenText s
  | @list items _ ih =>
    cases items with
    | nil => simp [prettyAt, writtenScalar, IsAsciiText, isAscii]
    | cons v items =>
      rw [prettyAt, prettyItems_eq_map]
      refine isAsciiText_bracketed level (by simp [IsAsciiText, isAscii])
        (by simp [IsAsciiText, isAscii]) ?_
      rw [← List.map_cons, List.forall_mem_map]
      exact fun item hitem => ih item hitem (level + 1)
  | @object entries _ _ ih =>
    have hfields : ∀ entry ∈ entries, IsAsciiText (prettyField (level + 1) entry) := by
      intro entry hentry
      have hcolon : IsAsciiText ": " := by simp [IsAsciiText, isAscii]
      exact isAsciiText_append (isAsciiText_append (isAsciiText_writtenText _) hcolon)
        (ih entry hentry (level + 1))
    cases entries with
    | nil => simp [prettyAt, writtenScalar, IsAsciiText, isAscii]
    | cons entry entries =>
      rw [List.map_cons, field, prettyAt, prettyFields_eq_map]
      refine isAsciiText_bracketed level (by simp [IsAsciiText, isAscii])
        (by simp [IsAsciiText, isAscii]) ?_
      rw [← List.forall_mem_map, List.map_cons] at hfields
      exact hfields

end SeamLint.Json

namespace SeamLint.Scan

open SeamLint.Data SeamLint.Files SeamLint.Json SeamLint.Text

/-- A file that holds the bytes of a document is read as the document. -/
theorem parseDocument_pretty {d : Disk} {p : Path} {place : List String} {v : Value}
    (hfind : d.find p = .ok (place, .file (asciiBytes (pretty v)))) (hsuffix : p.suffix = ".json")
    (h : IsKept v) :
    ∃ text, d.readText p = .ok text ∧ parseDocument p text = .ok v := by
  refine ⟨pretty v, readText_of_find hfind (isAsciiText_prettyAt h 0), ?_⟩
  unfold parseDocument
  rw [if_pos hsuffix, read_pretty h]
  rfl

end SeamLint.Scan
