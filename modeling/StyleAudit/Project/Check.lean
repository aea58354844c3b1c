import StyleAudit.Project.Analysis

/-! # Auditing a project

* **`Fix`**, **`fixSheets`** — removing unused selectors from the stylesheets of an analysis.
* **`CheckResult`** — what an audit tells.
* **`check`** — audits a project, and removes what is unused if asked to.
* **`rescan`** — audits a project again, without removing anything. -/

namespace StyleAudit.Project

open Files

/-- What was removed from a stylesheet, or would be. -/
structure Fix where
  file : String
  removed : List String
  /-- The number of edits. -/
  edits : Nat
  written : Bool
  deriving DecidableEq, Repr, Inhabited

/-- What an audit tells. -/
structure CheckResult where
  findings : List Finding := []
  skipped : List Skipped := []
  fixes : List Fix := []
  filesAnalyzed : Nat := 0
  stylesheetsAnalyzed : Nat := 0
  deriving DecidableEq, Repr, Inhabited

/-! ## Removing selectors -/

/-- The selectors that are removed from a stylesheet. -/
def fixTargets (a : Analysis) (s : Settings) (sheet : ParsedSheet) : SelectorSet :=
  sheet.declared.filter fun x => decide (x ∈ a.unused) && s.includesSelector x

/-- Removes selectors from one stylesheet: the files after it, and what was done. Edits refer to the
text that was analysed. -/
def fixSheet (a : Analysis) (s : Settings) (w : Workspace) (p : Path) (sheet : ParsedSheet) :
    Except AuditError (Workspace × Option Fix) :=
  let targets := fixTargets a s sheet
  let edits := Sheet.planRemoval targets sheet.text
  if targets.toList.isEmpty || edits.isEmpty then .ok (w, none)
  else
    match Edit.applyAll edits sheet.text with
    | .error _ => .error (.edit p)
    | .ok text =>
        let fix : Fix := ⟨(a.root.within p).text, targets.toList, edits.length, !s.dryRun⟩
        if s.dryRun then .ok (w, some fix)
        else
          match w.tree.write? w.here p text with
          | some tree => .ok ({ w with tree := tree }, some fix)
          | none => .error (.write p)

/-- Removes selectors from one stylesheet after another: the files, and what was done or why it
could not be. Stylesheets after one that cannot be fixed are left alone. -/
def fixEach (a : Analysis) (s : Settings) :
    Workspace → List (Path × ParsedSheet) → Workspace × Except AuditError (List Fix)
  | w, [] => (w, .ok [])
  | w, (p, sheet) :: rest =>
      match fixSheet a s w p sheet with
      | .error e => (w, .error e)
      | .ok (w, fix) =>
          match fixEach a s w rest with
          | (w, .ok fixes) => (w, .ok (fix.toList ++ fixes))
          | (w, .error e) => (w, .error e)

/-- Removes selectors from all stylesheets of an analysis, in the order of their paths. -/
def fixSheets (a : Analysis) (s : Settings) (w : Workspace) :
    Workspace × Except AuditError (List Fix) :=
  fixEach a s w (a.sheets.mergeSort fun x y => partsLe x.1.parts y.1.parts)

/-! ## Audits -/

/-- The result of an analysis. -/
def Analysis.result (a : Analysis) (findings : List Finding) (fixes : List Fix) : CheckResult :=
  ⟨findings, a.skipped, fixes, a.filesRead, a.sheets.length⟩

/-- Whether a fix took away a finding. -/
def Fix.covers (fix : Fix) (f : Finding) : Bool :=
  fix.file == f.file && fix.removed.contains f.selector

/-- The findings that are left after fixes that were written. -/
def remaining (s : Settings) (findings : List Finding) (fixes : List Fix) : List Finding :=
  if s.dryRun then findings else findings.filter fun f => !fixes.any (·.covers f)

/-- The files of a prepared project, among which must be a stylesheet. -/
def projectFiles (s : Settings) (w : Workspace) (root : Path) :
    Except AuditError (List SourceFile) :=
  match collect w.tree w.here root s.exclude with
  | .error e => .error (.collect e)
  | .ok files =>
      if files.any (·.kind == .stylesheet) then .ok files else .error (.noStylesheets root)

/-- The analysis of a project with its root found. -/
def analyzeProject (s : Settings) (w : Workspace) : Except AuditError Analysis :=
  match s.root with
  | none => .error .noRoot
  | some root => do
      let files ← projectFiles s w root
      match ← analyze w s files .never with
      | some a => .ok a
      | none => .error .cancelled

/-- Audits a project, and removes what is unused if asked to: the files after it, and the result. -/
def check (s : Settings) (w : Workspace) : Workspace × Except AuditError CheckResult :=
  match s.prepare w with
  | .error e => (w, .error e)
  | .ok s =>
      match analyzeProject s w with
      | .error e => (w, .error e)
      | .ok a =>
          if s.fix then
            match fixSheets a s w with
            | (w, .ok fixes) => (w, .ok (a.result (remaining s a.findings fixes) fixes))
            | (w, .error e) => (w, .error e)
          else (w, .ok (a.result a.findings []))

/-- Audits a prepared project again; nothing is told if its files cannot be collected or the pass is
cancelled. -/
def rescan (s : Settings) (w : Workspace) (looks : Looks) : Option CheckResult :=
  match s.root with
  | none => none
  | some root =>
      match collect w.tree w.here root s.exclude with
      | .error _ => none
      | .ok files =>
          match analyze w s files looks with
          | .ok (some a) => some (a.result a.findings [])
          | _ => none

end StyleAudit.Project
