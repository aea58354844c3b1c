import Mathlib
import StyleAudit.Project.Check
import StyleAudit.Proofs.Files.PathOrder
import StyleAudit.Proofs.Project.Meaning

/-! # Audits

An audit that returns has found its root, collected its files and analysed them. What it goes on
from are the stylesheets to report on that are accepted, each path once and in the order of the
paths.

* **`Audit`** — an audit that has come to its analysis.
* **`analysisOf`**, **`exists_accepted`** — the stylesheets of an analysis.
* **`nonempty_audit_of_check`** — an audit that returns has come that far. -/

namespace StyleAudit.Project

open Files

variable {w : Workspace} {s s' : Settings} {root : Path} {files : List SourceFile}

/-- A stylesheet as an analysis keeps it. -/
def parsed (e : Path × String) : Path × ParsedSheet := (e.1, .ofText e.2)

/-- The accepted stylesheets of some files, with their paths and texts: each path once and in the
order of the paths. -/
structure Accepted (w : Workspace) (s : Settings) (files : List SourceFile)
    (sheets : List (Path × String)) : Prop where
  sound : ∀ e ∈ sheets, ∃ f ∈ files, f.path = e.1 ∧ acceptedText? w s f = some e.2
  complete : ∀ f ∈ files, ∀ text, acceptedText? w s f = some text →
    ∃ path, (path, text) ∈ sheets ∧ path.parts = f.path.parts
  increasing : sheets.Pairwise fun d e => partsKey d.1.parts < partsKey e.1.parts

/-- The text of an accepted stylesheet is what its path leads to. -/
theorem Accepted.read?_eq {sheets : List (Path × String)} (h : Accepted w s files sheets)
    {e : Path × String} (he : e ∈ sheets) : w.tree.read? w.here e.1 = some e.2 := by
  obtain ⟨f, -, hpath, htext⟩ := h.sound e he
  rw [← hpath]
  exact read?_of_sheetText? (acceptedText?_eq_some_iff.1 htext).1

/-- The selectors of an accepted stylesheet can be read. -/
theorem Accepted.exists_declared? {sheets : List (Path × String)} (h : Accepted w s files sheets)
    {e : Path × String} (he : e ∈ sheets) : ∃ selectors, Sheet.declared? e.2 = .ok selectors := by
  obtain ⟨f, -, -, htext⟩ := h.sound e he
  exact ⟨_, (acceptedText?_eq_some_iff.1 htext).2⟩

/-- An audit that has come to its analysis. -/
structure Audit (s : Settings) (w : Workspace) where
  /-- The settings with their root and stylesheet found. -/
  prepared : Settings
  root : Path
  files : List SourceFile
  analysis : Analysis
  sheets : List (Path × String)
  prepare_eq : s.prepare w = .ok prepared
  root_eq : prepared.root = some root
  files_eq : projectFiles prepared w root = .ok files
  analyze_eq : analyze w prepared files .never = .ok (some analysis)
  accepted : Accepted w prepared files sheets
  sheets_eq : (analysis.sheets.mergeSort fun x y => partsLe x.1.parts y.1.parts) =
    sheets.map parsed

/-! ## The stylesheets of an analysis -/

/-- The analysis that files make, each of which contributes what it can. -/
def analysisOf (w : Workspace) (s : Settings) (root : Path) (files : List SourceFile) : Analysis :=
  .ofContributions root (files.map fun f => contribute w s f false)

/-- The analysis of files whose tasks see nothing. -/
theorem analyze_never (h : s.root = some root) :
    analyze w s files .never = .ok (some (analysisOf w s root files)) := by
  have hcontributions : (files.zipIdx.map fun e => contribute w s e.1 false) =
      files.map fun f => contribute w s f false := by
    conv_rhs => rw [← List.zipIdx_map_fst 0 files, List.map_map]
    rfl
  rw [analyze, h]
  simp only [Looks.never, Bool.false_eq_true, if_false]
  rw [hcontributions, analysisOf]

/-- The stylesheets that files contribute. -/
theorem sheets_analysisOf : (analysisOf w s root files).sheets =
    distinctPaths (files.filterMap fun f =>
      (acceptedText? w s f).map fun text => (f.path, .ofText text)) := by
  show distinctPaths ((files.map _).filterMap _) = _
  rw [List.filterMap_map]
  exact congrArg _ (List.filterMap_congr fun f _ => sheet?_contribute)

/-- A stylesheet of an analysis is that of a file. -/
theorem exists_of_mem_sheets {e : Path × ParsedSheet}
    (h : e ∈ (analysisOf w s root files).sheets) :
    ∃ f ∈ files, ∃ text, acceptedText? w s f = some text ∧ (f.path, .ofText text) = e := by
  rw [sheets_analysisOf] at h
  obtain ⟨f, hf, he⟩ := List.mem_filterMap.1 ((distinctPaths_sublist _).subset h)
  exact ⟨f, hf, Option.map_eq_some_iff.1 he⟩

/-- A file with an accepted stylesheet has one in the analysis, under a path with the same parts. -/
theorem exists_mem_sheets {f : SourceFile} (hf : f ∈ files) {text : String}
    (htext : acceptedText? w s f = some text) :
    ∃ path, (path, .ofText text) ∈ (analysisOf w s root files).sheets ∧
      path.parts = f.path.parts := by
  have hin : (f.path, ParsedSheet.ofText text) ∈ files.filterMap fun f =>
      (acceptedText? w s f).map fun text => (f.path, ParsedSheet.ofText text) :=
    List.mem_filterMap.2 ⟨f, hf, by rw [htext, Option.map_some]⟩
  obtain ⟨e, he, hparts⟩ := exists_mem_distinctPaths hin
  rw [← @sheets_analysisOf _ _ root _] at he
  obtain ⟨g, -, text', htext', rfl⟩ := exists_of_mem_sheets he
  -- a path that is kept has the parts, and so the text, of the one that is not
  have hsame : text' = text := FileTree.read?_congr hparts
    (read?_of_sheetText? (acceptedText?_eq_some_iff.1 htext').1)
    (read?_of_sheetText? (acceptedText?_eq_some_iff.1 htext).1)
  subst hsame
  exact ⟨g.path, he, hparts⟩

/-- The stylesheets of an analysis, sorted, are in increasing order. -/
theorem pairwise_sorted_sheets :
    ((analysisOf w s root files).sheets.mergeSort fun x y =>
      partsLe x.1.parts y.1.parts).Pairwise fun d e =>
        partsKey d.1.parts < partsKey e.1.parts := by
  have hle : (fun x y : Path × ParsedSheet => partsLe x.1.parts y.1.parts) =
      fun x y => decide (partsKey x.1.parts ≤ partsKey y.1.parts) := by
    funext x y
    exact partsLe_eq _ _
  rw [hle, sheets_analysisOf]
  refine pairwise_lt_mergeSort ((pairwise_distinctPaths _).imp fun {d e} hne heq => hne ?_)
  exact partsKey_injective heq

/-- **The stylesheets of an analysis**, in the order of their paths. -/
theorem exists_accepted (w : Workspace) (s : Settings) (files : List SourceFile) (root : Path) :
    ∃ sheets, Accepted w s files sheets ∧
      ((analysisOf w s root files).sheets.mergeSort fun x y => partsLe x.1.parts y.1.parts) =
        sheets.map parsed := by
  refine ⟨((analysisOf w s root files).sheets.mergeSort fun x y =>
    partsLe x.1.parts y.1.parts).map fun e => (e.1, e.2.text), ?_, ?_⟩
  · constructor
    case sound =>
      intro e he
      obtain ⟨d, hd, rfl⟩ := List.mem_map.1 he
      obtain ⟨f, hf, text, htext, rfl⟩ := exists_of_mem_sheets (List.mem_mergeSort.1 hd)
      exact ⟨f, hf, rfl, htext⟩
    case complete =>
      intro f hf text htext
      obtain ⟨path, hmem, hparts⟩ := @exists_mem_sheets _ _ root _ _ hf _ htext
      exact ⟨path, List.mem_map.2 ⟨_, List.mem_mergeSort.2 hmem, rfl⟩, hparts⟩
    case increasing =>
      rw [List.pairwise_map]
      exact pairwise_sorted_sheets
  · rw [List.map_map]
    refine (List.map_id' _).symm.trans (List.map_congr_left fun e he => ?_)
    obtain ⟨f, -, text, -, rfl⟩ := exists_of_mem_sheets (List.mem_mergeSort.1 he)
    rfl

/-! ## Audits that return -/

/-- Preparing settings finds their root and stylesheet. -/
theorem Settings.exists_prepared (h : s.prepare w = .ok s') :
    ∃ root sheet, s' = { s with root := some root, stylesheet := sheet } := by
  rw [prepare] at h
  split at h
  · cases h
  · exact ⟨_, _, (Except.ok.inj h).symm⟩

/-- The root of an analysis is that of its settings. -/
theorem Audit.analysis_root (p : Audit s w) : p.analysis.root = p.root := by
  have h := p.analyze_eq
  rw [analyze_never p.root_eq] at h
  rw [← Option.some.inj (Except.ok.inj h)]
  rfl

/-- The analysis that an audit goes on from. -/
theorem Audit.analyzeProject_eq (p : Audit s w) :
    analyzeProject p.prepared w = .ok p.analysis := by
  rw [analyzeProject, p.root_eq]
  simp only [p.files_eq, p.analyze_eq, bind, Except.bind]

/-- **An audit that finds its root and its files** comes to their analysis. -/
theorem exists_audit (hprepare : s.prepare w = .ok s') (hroot : s'.root = some root)
    (hfiles : projectFiles s' w root = .ok files) :
    ∃ p : Audit s w, p.root = root ∧ p.analysis = analysisOf w s' root files ∧
      p.sheets = ((analysisOf w s' root files).sheets.mergeSort fun x y =>
        partsLe x.1.parts y.1.parts).map fun e => (e.1, e.2.text) := by
  obtain ⟨sheets, haccepted, hsheets⟩ := exists_accepted w s' files root
  refine ⟨⟨s', root, files, _, sheets, hprepare, hroot, hfiles, analyze_never hroot, haccepted,
    hsheets⟩, rfl, rfl, ?_⟩
  rw [hsheets, List.map_map]
  exact (List.map_id' _).symm

/-- **An audit that returns** has come to its analysis. -/
theorem nonempty_audit_of_check {w' : Workspace} {r : CheckResult} (h : check s w = (w', .ok r)) :
    Nonempty (Audit s w) := by
  rw [check] at h
  cases hprepare : s.prepare w with
  | error e =>
      rw [hprepare] at h
      cases h
  | ok s' =>
      obtain ⟨root, sheet, hs'⟩ := Settings.exists_prepared hprepare
      have hroot : s'.root = some root := by rw [hs']
      cases hfiles : projectFiles s' w root with
      | error e =>
          rw [hprepare] at h
          simp [analyzeProject, hroot, hfiles, bind, Except.bind] at h
      | ok files =>
          obtain ⟨p, -⟩ := exists_audit hprepare hroot hfiles
          exact ⟨p⟩

end StyleAudit.Project
