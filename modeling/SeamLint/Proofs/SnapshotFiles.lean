import SeamLint.Proofs.OptionLayers
import SeamLint.Proofs.ReportDocument
import SeamLint.Proofs.JsonFiles
import SeamLint.Scan.Snapshots

set_option autoImplicit false

/-! # Scanning snapshot files

A file that is no directory and holds no integer with too many digits gives a tree or is refused
(`loadSnapshot_cases`). Loading goes from file to file and collects both (`loadTrees_eq`), and the
scan only sees the trees, so files that are refused add their lines to the report and change nothing
else in it (`scan_accounts_for_files`). A file whose tree is too large for its numbers to be written
is not refused, and leaves the scan without a report (`no_scan_of_long_method`).
-/

namespace SeamLint.Text

theorem not_of_mem_pieces {p : Char → Bool} {cs piece : List Char} (h : piece ∈ pieces p cs) :
    ∀ c ∈ piece, p c = false := by
  induction cs generalizing piece with
  | nil =>
    obtain rfl : piece = [] := by simpa [pieces] using h
    exact fun c hc => absurd hc List.not_mem_nil
  | cons c cs ih =>
    unfold pieces at h
    split at h
    case isTrue =>
      rcases List.mem_cons.mp h with rfl | h
      · exact fun c hc => absurd hc List.not_mem_nil
      · exact ih h
    case isFalse hc =>
      obtain ⟨first, rest, hpieces⟩ := List.exists_cons_of_ne_nil (pieces_ne_nil p cs)
      rw [hpieces] at h ih
      rcases List.mem_cons.mp h with rfl | h
      · rw [List.forall_mem_cons]
        exact ⟨by simpa using hc, ih List.mem_cons_self⟩
      · exact ih (List.mem_cons_of_mem _ h)

/-- Joined parts come apart again where they were joined. -/
theorem pieces_intercalate {p : Char → Bool} {c : Char} (hc : p c = true) {part : List Char}
    {parts : List (List Char)} (h : ∀ part' ∈ part :: parts, ∀ x ∈ part', p x = false) :
    pieces p (List.intercalate [c] (part :: parts)) = part :: parts := by
  induction parts generalizing part with
  | nil =>
    rw [List.forall_mem_cons] at h
    rw [List.intercalate_singleton, Number.pieces_of_all_not h.1]
  | cons next parts ih =>
    rw [List.forall_mem_cons] at h
    rw [List.intercalate_cons_cons, List.append_assoc, List.singleton_append,
      pieces_append_cons hc, Number.pieces_of_all_not h.1, ih h.2]
    rfl

end SeamLint.Text

namespace SeamLint.Files.Path

open SeamLint.Text

/-- The text can be a part of a path. -/
structure IsPart (part : String) : Prop where
  nonempty : part.isEmpty = false
  noDot : part ≠ "."
  noSlash : ∀ c ∈ part.toList, (c == '/') = false

theorem isPart_of_mem_ofText {text part : String} (h : part ∈ (ofText text).parts) :
    IsPart part := by
  obtain ⟨hmem, hkept⟩ := List.mem_filter.mp h
  obtain ⟨piece, hpiece, rfl⟩ := List.mem_map.mp hmem
  simp only [Bool.and_eq_true, Bool.not_eq_eq_eq_not, Bool.not_true,
    bne_iff_ne] at hkept
  refine ⟨hkept.1, hkept.2, ?_⟩
  rw [String.toList_ofList]
  exact not_of_mem_pieces hpiece

theorem parts_joined {part : String} {parts : List String} (h : ∀ p ∈ part :: parts, IsPart p) :
    ((pieces (· == '/') (join "/" (part :: parts)).toList).map String.ofList).filter
      (fun p => !p.isEmpty && p != ".") = part :: parts := by
  have hslash : "/".toList = ['/'] := by simp
  have hnames : ∀ piece ∈ (part :: parts).map String.toList, ∀ c ∈ piece, (c == '/') = false :=
    List.forall_mem_map.mpr fun p hp => (h p hp).noSlash
  have hpieces : pieces (· == '/') (join "/" (part :: parts)).toList =
      (part :: parts).map String.toList := by
    unfold join
    rw [String.toList_ofList, hslash]
    exact pieces_intercalate rfl hnames
  have hback : ((part :: parts).map String.toList).map String.ofList = part :: parts := by
    simp [Function.comp_def]
  rw [hpieces, hback, List.filter_eq_self]
  intro p hp
  simp [(h p hp).nonempty, (h p hp).noDot]

/-- A path is read back from its written form. -/
theorem ofText_text {p : Path} (h : ∀ part ∈ p.parts, IsPart part) : ofText p.text = p := by
  obtain ⟨absolute, parts⟩ := p
  cases parts with
  | nil =>
    cases absolute with
    | false => decide
    | true => decide
  | cons part parts =>
    have hparts := parts_joined h
    cases absolute with
    | false =>
      -- the first part is not empty and does not begin with a slash
      have hhead : (join "/" (part :: parts)).toList.head? ≠ some '/' := by
        have hpart := h part List.mem_cons_self
        rw [Json.toList_join_cons]
        cases hchars : part.toList with
        | nil => exact absurd hpart.nonempty (by simp [String.toList_eq_nil_iff.mp hchars])
        | cons c cs =>
          have hc : (c == '/') = false := hpart.noSlash c (by simp [hchars])
          simpa using hc
      have htext : (Path.mk false (part :: parts)).text = join "/" (part :: parts) := rfl
      rw [htext]
      unfold ofText
      rw [hparts]
      simp [hhead]
    | true =>
      have htext : (Path.mk true (part :: parts)).text.toList =
          '/' :: (join "/" (part :: parts)).toList := by
        simp [text]
      have hpieces : pieces (· == '/') ('/' :: (join "/" (part :: parts)).toList) =
          [] :: pieces (· == '/') (join "/" (part :: parts)).toList := rfl
      unfold ofText
      rw [htext, hpieces, List.map_cons, List.filter_cons_of_neg (by decide), hparts]
      rfl

end SeamLint.Files.Path

namespace SeamLint.Scan

open SeamLint.Code SeamLint.Data SeamLint.Files SeamLint.Finding SeamLint.Rule SeamLint.Snapshot

/-! ## One file -/

/-- The name under which a path is listed. -/
def listedName (path : String) : String := (Path.ofText path).text

/-- The path leads to no directory, and not to a file with an integer of too many digits in it.
There need not be a file, and it may hold any bytes. -/
structure IsSnapshotFile (d : Disk) (path : String) : Prop where
  noDirectory : d.directory? (Path.ofText path) = none
  readable : ∀ text, d.readText (Path.ofText path) = .ok text →
    ∀ fault, parseDocument (Path.ofText path) text ≠ .error (.integer fault)

/-- The tree of a file, if it has one. -/
def tree? (d : Disk) (path : String) : Option Tree :=
  match loadSnapshot d (listedName path) with
  | .ok t => some t
  | .error _ => none

/-- What is wrong with a file, if something is. -/
def refusal? (d : Disk) (path : String) : Option (String × SnapshotFault) :=
  match loadSnapshot d (listedName path) with
  | .error (.snapshot fault) => some (listedName path, fault)
  | _ => none

variable {d : Disk} {path : String} {paths : List String}

/-- A path leads where its listed name does. -/
theorem ofText_listedName (path : String) : Path.ofText (listedName path) = Path.ofText path :=
  Path.ofText_text fun _ => Path.isPart_of_mem_ofText

/-- No file of this kind ends the run. -/
theorem loadSnapshot_ne_integer (h : IsSnapshotFile d path) (fault : Number.IntegerFault) :
    loadSnapshot d (listedName path) ≠ .error (.integer fault) := by
  intro hload
  simp only [loadSnapshot, ofText_listedName] at hload
  split at hload
  case isTrue => cases hload
  case isFalse =>
    split at hload
    case h_1 => cases hload
    case h_2 text htext =>
      split at hload
      case h_1 => cases hload
      case h_2 hparse => exact h.readable text htext _ hparse
      case h_3 document _ =>
        cases hdecode : decode document (some (listedName path)) with
        | error fault => simp [hdecode, Except.mapError] at hload
        | ok t => simp [hdecode, Except.mapError] at hload

/-- Loading a file of this kind ends in a tree or in a fault of the file. -/
theorem loadSnapshot_cases (h : IsSnapshotFile d path) :
    (∃ t, loadSnapshot d (listedName path) = .ok t) ∨
      ∃ fault, loadSnapshot d (listedName path) = .error (.snapshot fault) := by
  have hne := loadSnapshot_ne_integer h
  cases hload : loadSnapshot d (listedName path) with
  | ok t => exact Or.inl ⟨t, rfl⟩
  | error fault =>
    cases fault with
    | snapshot fault => exact Or.inr ⟨fault, rfl⟩
    | integer fault => exact absurd hload (hne fault)

theorem tree?_of_ok {t : Tree} (h : loadSnapshot d (listedName path) = .ok t) :
    tree? d path = some t := by
  unfold tree?
  rw [h]

theorem tree?_of_error {fault : LoadFault} (h : loadSnapshot d (listedName path) = .error fault) :
    tree? d path = none := by
  unfold tree?
  rw [h]

theorem refusal?_of_ok {t : Tree} (h : loadSnapshot d (listedName path) = .ok t) :
    refusal? d path = none := by
  unfold refusal?
  rw [h]

theorem refusal?_of_error {fault : SnapshotFault}
    (h : loadSnapshot d (listedName path) = .error (.snapshot fault)) :
    refusal? d path = some (listedName path, fault) := by
  unfold refusal?
  rw [h]

theorem isMade_of_tree? {t : Tree} (h : tree? d path = some t) : IsMade t := by
  unfold tree? at h
  split at h
  case h_2 => cases h
  case h_1 t' hload =>
    obtain rfl := Option.some.inj h
    simp only [loadSnapshot] at hload
    split at hload
    case isTrue => cases hload
    case isFalse =>
      split at hload
      case h_1 => cases hload
      case h_2 text _ =>
        split at hload
        case h_1 => cases hload
        case h_2 => cases hload
        case h_3 document _ => exact Or.inr ⟨document, _, eq_ok_of_mapError hload⟩

/-- **A file gives a tree or a refusal, and not both.** -/
theorem isSome_tree? (h : IsSnapshotFile d path) :
    (tree? d path).isSome = !(refusal? d path).isSome := by
  rcases loadSnapshot_cases h with ⟨t, ht⟩ | ⟨fault, hfault⟩
  · rw [tree?_of_ok ht, refusal?_of_ok ht]
    rfl
  · rw [tree?_of_error hfault, refusal?_of_error hfault]
    rfl

/-! ## All files -/

theorem listSnapshots_eq (h : ∀ path ∈ paths, IsSnapshotFile d path) :
    listSnapshots d paths = paths.map listedName := by
  unfold listSnapshots
  induction paths with
  | nil => rfl
  | cons path paths ih =>
    rw [List.forall_mem_cons] at h
    have hone : snapshotsAt d path = [listedName path] := by
      simp only [snapshotsAt, h.1.noDirectory]
      rfl
    rw [List.flatMap_cons, ih h.2, hone]
    rfl

theorem loadFiles_cons_ok {t : Tree} (h : loadSnapshot d path = .ok t) :
    loadFiles d (path :: paths) =
      { loadFiles d paths with trees := t :: (loadFiles d paths).trees } := by
  rw [loadFiles, h]

theorem loadFiles_cons_refused {fault : SnapshotFault}
    (h : loadSnapshot d path = .error (.snapshot fault)) :
    loadFiles d (path :: paths) =
      { loadFiles d paths with skipped := (path, fault) :: (loadFiles d paths).skipped } := by
  rw [loadFiles, h]

/-- **Each file in turn adds its tree or its refusal.** -/
theorem loadTrees_eq (h : ∀ path ∈ paths, IsSnapshotFile d path) :
    loadTrees d paths =
      { trees := paths.filterMap (tree? d), skipped := paths.filterMap (refusal? d) } := by
  unfold loadTrees
  rw [listSnapshots_eq h]
  -- no file stops the loop, so each one is followed by all that come after it
  induction paths with
  | nil => rfl
  | cons path paths ih =>
    rw [List.forall_mem_cons] at h
    have hrest := ih h.2
    rcases loadSnapshot_cases h.1 with ⟨t, ht⟩ | ⟨fault, hfault⟩
    · rw [List.map_cons, loadFiles_cons_ok ht, hrest, List.filterMap_cons_some (tree?_of_ok ht),
        List.filterMap_cons_none (refusal?_of_ok ht)]
    · rw [List.map_cons, loadFiles_cons_refused hfault, hrest,
        List.filterMap_cons_none (tree?_of_error hfault),
        List.filterMap_cons_some (refusal?_of_error hfault)]

/-- Every file is accounted for once. -/
theorem length_trees_add_length_refusals (h : ∀ path ∈ paths, IsSnapshotFile d path) :
    (paths.filterMap (tree? d)).length + (paths.filterMap (refusal? d)).length =
      paths.length := by
  induction paths with
  | nil => rfl
  | cons path paths ih =>
    rw [List.forall_mem_cons] at h
    have hrest := ih h.2
    rcases loadSnapshot_cases h.1 with ⟨t, ht⟩ | ⟨fault, hfault⟩
    · rw [List.filterMap_cons_some (tree?_of_ok ht), List.filterMap_cons_none (refusal?_of_ok ht),
        List.length_cons, List.length_cons]
      omega
    · rw [List.filterMap_cons_none (tree?_of_error hfault),
        List.filterMap_cons_some (refusal?_of_error hfault), List.length_cons, List.length_cons]
      omega

/-- The files that have a tree. -/
def usable (d : Disk) (paths : List String) : List String :=
  paths.filter fun path => (tree? d path).isSome

theorem loadTrees_usable (h : ∀ path ∈ paths, IsSnapshotFile d path) :
    loadTrees d (usable d paths) = { trees := paths.filterMap (tree? d) } := by
  have husable : ∀ path ∈ usable d paths, IsSnapshotFile d path := fun path hpath =>
    h path (List.mem_filter.mp hpath).1
  have htrees : (usable d paths).filterMap (tree? d) = paths.filterMap (tree? d) := by
    unfold usable
    rw [List.filterMap_filter]
    refine List.filterMap_congr fun path _ => ?_
    cases htree : tree? d path with
    | none => rfl
    | some t => rfl
  have hrefusals : (usable d paths).filterMap (refusal? d) = [] := by
    rw [List.filterMap_eq_nil_iff]
    intro path hpath
    obtain ⟨hmem, hsome⟩ := List.mem_filter.mp hpath
    have hone := isSome_tree? (h path hmem)
    cases hrefusal : refusal? d path with
    | none => rfl
    | some refusal => simp [hrefusal, hsome] at hone
  rw [loadTrees_eq husable, htrees, hrefusals]

/-! ## Files that hold documents -/

theorem loadSnapshot_of_parse {text : String} {document : Value}
    (hexists : d.hasPath (Path.ofText path) = true)
    (htext : d.readText (Path.ofText path) = .ok text)
    (hparse : parseDocument (Path.ofText path) text = .ok document) :
    loadSnapshot d path =
      (decode document (some path)).mapError fun fault => .snapshot (.document fault) := by
  unfold loadSnapshot
  extract_lets file
  rw [if_neg (by simp [file, hexists]), htext]
  simp only [file, hparse]

section Documents

open SeamLint.Json SeamLint.Text

variable {place : List String} {document : Value}
  (hfind : d.find (Path.ofText path) = .ok (place, .file (asciiBytes (pretty document))))
  (hsuffix : (Path.ofText path).suffix = ".json") (hkept : IsKept document)

include hfind hsuffix hkept

theorem isSnapshotFile_of_document : IsSnapshotFile d path := by
  obtain ⟨text, htext, hparse⟩ := parseDocument_pretty hfind hsuffix hkept
  refine ⟨by simp only [Disk.directory?, hfind], fun text' htext' fault hfault => ?_⟩
  obtain rfl : text = text' := Except.ok.inj (htext.symm.trans htext')
  cases hparse.symm.trans hfault

theorem tree?_of_document {t : Tree} (hdecode : decode document (some (listedName path)) = .ok t) :
    tree? d path = some t := by
  obtain ⟨text, htext, hparse⟩ := parseDocument_pretty hfind hsuffix hkept
  have hexists : d.hasPath (Path.ofText path) = true := by
    simp only [Disk.hasPath, hfind]
    rfl
  have hload : loadSnapshot d (listedName path) = .ok t := by
    rw [← ofText_listedName] at hexists htext hparse
    rw [loadSnapshot_of_parse hexists htext hparse, hdecode]
    rfl
  exact tree?_of_ok hload

end Documents

/-- A private method with lines from `first` to `last` and a block in it, as a value. -/
def methodValue (first last : Int) : Value :=
  .object [field "kind" (.text "method"), field "name" (.text "Run"),
    field "modifiers" (.list [.text "private"]),
    field "span" (.list [.int first, .int 1, .int last, .int 1]),
    field "children" (.list [.object [field "kind" (.text "block")]])]

/-- A root with the method. -/
def methodRoot (first last : Int) : Value :=
  .object [field "kind" (.text "compilation_unit"),
    field "children" (.list [methodValue first last])]

/-- A document with the method. -/
def methodDocument (first last : Int) : Value :=
  .object [field "path" (.text "src/App.cs"), field "root" (methodRoot first last)]

theorem decode_methodDocument (first last : Int) (path : String) :
    decode (methodDocument first last) (some path) =
      .ok (Output.privateMethodTree "src/App.cs" "Run" first last) := by
  rw [methodDocument, decode_of_root rfl, decodeRoot_eq_readRoot]
  rfl

section Method

open SeamLint.Json SeamLint.Number SeamLint.Output

variable {first last : Int} (hfirst : isWritable first = true) (hlast : isWritable last = true)

include hfirst hlast

theorem isKept_methodValue : IsKept (methodValue first last) := by
  have hone : isWritable 1 = true := isWritable_of_small (by decide)
  have hspan : IsKept (.list [.int first, .int 1, .int last, .int 1]) :=
    .list (by simp [IsKept.int, hfirst, hlast, hone])
  have hmodifiers : IsKept (.list [.text "private"]) := .list (by simp [IsKept.text])
  have hblock : IsKept (.object [field "kind" (.text "block")]) :=
    isKept_object ["kind"] rfl (by decide) (by simp [IsKept.text])
  have hblocks := IsKept.list (List.forall_mem_singleton.mpr hblock)
  exact isKept_object ["kind", "name", "modifiers", "span", "children"] rfl (by decide)
    (by simp [IsKept.text, hmodifiers, hspan, hblocks])

theorem isKept_methodDocument : IsKept (methodDocument first last) := by
  have hmethods := IsKept.list (List.forall_mem_singleton.mpr (isKept_methodValue hfirst hlast))
  have hroot : IsKept (methodRoot first last) :=
    isKept_object ["kind", "children"] rfl (by decide) (by simp [IsKept.text, hmethods])
  exact isKept_object ["path", "root"] rfl (by decide) (by simp [IsKept.text, hroot])

/-- The file with the method is loaded. -/
theorem loads_methodFile (hfind : d.find (Path.ofText "a.json") =
      .ok (["a.json"], .file (Text.asciiBytes (pretty (methodDocument first last))))) :
    IsSnapshotFile d "a.json" ∧
      tree? d "a.json" = some (privateMethodTree "src/App.cs" "Run" first last) := by
  have hkept := isKept_methodDocument hfirst hlast
  have hsuffix : (Path.ofText "a.json").suffix = ".json" := by decide
  exact ⟨isSnapshotFile_of_document hfind hsuffix hkept,
    tree?_of_document hfind hsuffix hkept (decode_methodDocument first last _)⟩

end Method

/-- A configuration that leaves on only the rule for large private methods. -/
def methodConfig : Config :=
  ⟨[field "rules" (.object
    [field "enabled" (.list [.text "SEAM011"]),
     field "disabled" (.list
      (((catalog.map Rule.id).filter (· ≠ "SEAM011")).map Value.text))])], none⟩

theorem engine_methodConfig : methodConfig.engine = .ok (Output.methodEngine .unset) := rfl

/-! ## Scans -/

theorem scanLoaded_of_engine_error {l : Loading} {config : Config} {fault : AccessFault}
    (hl : l.stopped = none) (he : config.engine = .error fault) :
    scanLoaded l config = .error (.config (.access fault)) := by
  simp only [scanLoaded, hl, he]
  rfl

theorem scanLoaded_of_engine {l : Loading} {config : Config} {e : Engine} (hl : l.stopped = none)
    (he : config.engine = .ok e) :
    scanLoaded l config =
      match e.report l.trees with
      | .ok report => .ok { report with errors := l.errors ++ report.errors }
      | .error (.raised fault) => .error (.unwritable fault)
      | .error .endless => .error .endless := by
  have hscan : scanLoaded l config = ((liftM (e.report l.trees) : Except Fault Report) >>=
      fun report => pure { report with errors := l.errors ++ report.errors }) := by
    simp only [scanLoaded, hl, he]
    rfl
  rw [hscan]
  cases e.report l.trees with
  | ok report => rfl
  | error stop =>
    cases stop with
    | raised fault => rfl
    | endless => rfl

/-- **A file that cannot be used costs a line of its own and nothing else.** Of files that hold any
bytes, but no integer with too many digits, each gives one tree or one refusal, in the order of the
files, and the trees and the refusals are as many as the files. A scan with any configuration
reports what it does without the refused files, and lists the refusals before the errors of its
rules. This is so unless the configuration has no engine, or a rule finds something at a node that
is so large that its number is not written; then there is no report, with or without the refused
files. -/
theorem scan_accounts_for_files (d : Disk) (paths : List String)
    (hfiles : ∀ path ∈ paths, IsSnapshotFile d path) :
    (∀ path ∈ paths, (tree? d path).isSome = !(refusal? d path).isSome) ∧
    loadTrees d paths =
      { trees := paths.filterMap (tree? d), skipped := paths.filterMap (refusal? d) } ∧
    ∀ config : Config,
      (∀ fault, config.engine = .error fault →
        scanPaths d paths config = .error (.config (.access fault))) ∧
      ∀ e, config.engine = .ok e →
        (∃ report, scanPaths d (usable d paths) config = .ok report ∧
          scanPaths d paths config =
            .ok { report with errors := (loadTrees d paths).errors ++ report.errors } ∧
          e.report (loadTrees d paths).trees = .ok report ∧
          report.trees + (loadTrees d paths).errors.length = paths.length) ∨
        (scanPaths d (usable d paths) config = .error (.unwritable {}) ∧
          scanPaths d paths config = .error (.unwritable {}) ∧
          ∃ t ∈ (loadTrees d paths).trees, ∃ n ∈ t.nodes, IsHuge t n ∧ ∃ r ∈ e.rules, ∃ f,
            r.evaluate (e.context t r) n = .ok (some f) ∧ f.isShowable = false) := by
  have hload := loadTrees_eq hfiles
  have husable := loadTrees_usable hfiles
  refine ⟨fun path hpath => isSome_tree? (hfiles path hpath), hload, fun config => ⟨?_, ?_⟩⟩
  · intro fault hfault
    exact scanLoaded_of_engine_error (by rw [hload]) hfault
  · intro e he
    have hscan : scanPaths d paths config = _ := scanLoaded_of_engine (by rw [hload]) he
    have hscan' : scanPaths d (usable d paths) config = _ :=
      scanLoaded_of_engine (by rw [husable]) he
    have htrees : (loadTrees d (usable d paths)).trees = (loadTrees d paths).trees := by
      rw [hload, husable]
    have herrors : (loadTrees d (usable d paths)).errors = [] := by
      rw [husable]
      rfl
    rw [htrees, herrors] at hscan'
    cases hreport : e.report (loadTrees d paths).trees with
    | ok report =>
      left
      rw [hreport] at hscan hscan'
      refine ⟨report, hscan', hscan, rfl, ?_⟩
      have hcount : report.trees = (loadTrees d paths).trees.length := by
        rw [eq_scan_of_report hreport]
        exact List.length_map _
      rw [hcount, Loading.errors, List.length_map, hload]
      exact length_trees_add_length_refusals hfiles
    | error stop =>
      have hrules := Config.mem_catalog_of_engine he
      cases stop with
      | endless =>
        refine absurd hreport (report_ne_endless hrules fun t ht => ?_)
        rw [hload] at ht
        obtain ⟨path, -, htree⟩ := List.mem_filterMap.mp ht
        exact isMade_of_tree? htree
      | raised fault =>
        right
        rw [hreport] at hscan hscan'
        exact ⟨hscan', hscan, exists_isHuge_of_report_error hrules hreport⟩

/-- Next to the file with a method, one is no text, one is no document, and one is not there. -/
theorem scan_accounts_for_files_broken :
    let d : Disk := { entries :=
      [(["a.json"], .file (Text.asciiBytes (Json.pretty (methodDocument 1 80)))),
       (["b.json"], .file [0xff]), (["c.json"], .file [0x7b])] }
    let paths := ["a.json", "b.json", "c.json", "d.json"]
    (∀ path ∈ paths, IsSnapshotFile d path) ∧ ∃ report,
      scanPaths d ["a.json"] methodConfig = .ok report ∧ report.trees = 1 ∧
      scanPaths d paths methodConfig =
        .ok { report with errors := (loadTrees d paths).errors ++ report.errors } ∧
      (loadTrees d paths).errors.length = 3 := by
  intro d paths
  have hpath : Path.ofText "a.json" = ⟨false, ["a.json"]⟩ := by decide
  have hfirst : Number.isWritable 1 = true := Number.isWritable_of_small (by decide)
  have hlast : Number.isWritable 80 = true := Number.isWritable_of_small (by decide)
  obtain ⟨hfile, htree⟩ := loads_methodFile (d := d) hfirst hlast (by rw [hpath]; rfl)
  have htext : d.readText (Path.ofText "b.json") = .error (.bytes ⟨0xff, 0, 0, .badStart⟩) := rfl
  have hbrace : d.readText (Path.ofText "c.json") = .ok (String.ofList ['\x7b']) := rfl
  have hparse : ∃ why, parseDocument (Path.ofText "c.json") (String.ofList ['\x7b']) =
      .error (.malformed why) := ⟨_, rfl⟩
  have hmissing : d.readText (Path.ofText "d.json") =
      .error (.system .missing (Path.ofText "d.json")) := rfl
  have hfiles : ∀ path ∈ paths, IsSnapshotFile d path := by
    simp only [paths, List.forall_mem_cons, List.not_mem_nil, false_implies, implies_true, and_true]
    refine ⟨hfile, ⟨rfl, fun text h => ?_⟩, ⟨rfl, fun text h fault hfault => ?_⟩,
      ⟨rfl, fun text h => ?_⟩⟩
    · cases htext.symm.trans h
    · obtain ⟨why, hwhy⟩ := hparse
      obtain rfl := Except.ok.inj (hbrace.symm.trans h)
      cases hwhy.symm.trans hfault
    · cases hmissing.symm.trans h
  have hothers : tree? d "b.json" = none ∧ tree? d "c.json" = none ∧ tree? d "d.json" = none :=
    ⟨rfl, rfl, rfl⟩
  have htrees : paths.filterMap (tree? d) = [Output.privateMethodTree "src/App.cs" "Run" 1 80] := by
    simp [paths, htree, hothers]
  have husable : usable d paths = ["a.json"] := by
    simp [usable, paths, htree, hothers]
  obtain ⟨-, hload, hscans⟩ := scan_accounts_for_files d paths hfiles
  rcases (hscans methodConfig).2 _ engine_methodConfig with
    ⟨report, halone, hscan, hreport, hcount⟩ | ⟨-, -, t, ht, n, hn, hhuge, -⟩
  · rw [husable] at halone
    have hone : report.trees = 1 := by
      rw [eq_scan_of_report hreport, hload, htrees]
      rfl
    refine ⟨hfiles, report, halone, hone, hscan, ?_⟩
    have hfour : paths.length = 4 := rfl
    omega
  · rw [hload, htrees] at ht
    obtain rfl := List.mem_singleton.mp ht
    have hwritable : Tree.IsWritable (Output.privateMethodTree "src/App.cs" "Run" 1 80) :=
      Output.isWritable_privateMethodTree _ _ ⟨hfirst, hfirst, hlast, hfirst⟩
        (Number.isWritable_of_small (by decide))
    exact absurd hhuge (hwritable.measures n hn)

/-- Both ends of the method can be read, but the number of its lines cannot be written: there is a
tree, and no report. -/
theorem no_scan_of_long_method :
    let big : Int := 10 ^ Number.digitLimit - 1
    let d : Disk := { entries :=
      [(["a.json"], .file (Text.asciiBytes (Json.pretty (methodDocument (-big) big))))] }
    IsSnapshotFile d "a.json" ∧
      loadTrees d ["a.json"] =
        { trees := [Output.privateMethodTree "src/App.cs" "Run" (-big) big] } ∧
      scanPaths d ["a.json"] methodConfig = .error (.unwritable {}) := by
  intro big d
  have hlimit : (10 : Int) ^ 2 ≤ 10 ^ Number.digitLimit :=
    pow_le_pow_right₀ (by decide) (by decide)
  have hbig : big = 10 ^ Number.digitLimit - 1 := rfl
  have hends : Number.isWritable (-big) = true ∧ Number.isWritable big = true := by
    rw [Number.isWritable_iff_lt, Number.isWritable_iff_lt]
    omega
  have hpath : Path.ofText "a.json" = ⟨false, ["a.json"]⟩ := by decide
  obtain ⟨hfile, htree⟩ := loads_methodFile (d := d) hends.1 hends.2 (by rw [hpath]; rfl)
  have hload : loadTrees d ["a.json"] =
      { trees := [Output.privateMethodTree "src/App.cs" "Run" (-big) big] } := by
    have hrefusal : refusal? d "a.json" = none := by
      have hone := isSome_tree? hfile
      simpa [htree] using hone
    rw [loadTrees_eq (by simpa using hfile)]
    simp [htree, hrefusal]
  -- the count has one digit more than either end of the method
  have hlines : 50 < big - -big + 1 := by omega
  have hlong : Number.isWritable (big - -big + 1) = false := by
    rw [← Bool.not_eq_true, Number.isWritable_iff_lt]
    omega
  have hreport :
      (Output.methodEngine .unset).report (loadTrees d ["a.json"]).trees = .error (.raised {}) := by
    rw [hload, Output.report_privateMethodTree _ _ rfl hlines, hlong]
    rfl
  refine ⟨hfile, hload, ?_⟩
  have hscan : scanPaths d ["a.json"] methodConfig = _ :=
    scanLoaded_of_engine (by rw [hload]) engine_methodConfig
  rw [hscan, hreport]

end SeamLint.Scan
