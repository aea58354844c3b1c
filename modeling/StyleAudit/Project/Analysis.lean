import StyleAudit.Project.Settings
import StyleAudit.Selector.Unused
import StyleAudit.Sheet.Removal

/-! # Analysing a project

Each file contributes on its own: the selectors that it uses, a stylesheet, or the reason why a
stylesheet was left out. The contributions may come in any order. A task that finds its pass
cancelled contributes nothing, and then the whole analysis is given up.

* **`Contribution`**, **`contribute`** — what one file adds.
* **`Analysis`** — what is known of a project.
* **`analyze`** — the analysis of a list of files.
* **`Analysis.findings`** — where unused selectors stand. -/

namespace StyleAudit.Project

open Files

/-- An occurrence of an unused selector. -/
structure Finding where
  file : String
  selector : String
  line : UInt32
  column : UInt32
  deriving DecidableEq, Repr, Inhabited

/-- A stylesheet that was left out, and why. -/
structure Skipped where
  file : String
  reason : String
  deriving DecidableEq, Repr, Inhabited

/-- A stylesheet with the text that it was read from. -/
structure ParsedSheet where
  text : String
  outline : Sheet.Outline
  declared : SelectorSet

/-- What a file contributes to an analysis. -/
inductive Contribution where
  /-- The task found its pass cancelled, or the file has no text. -/
  | nothing
  /-- The selectors that a file uses. -/
  | usage (used : SelectorSet)
  /-- A stylesheet that is not reported on. -/
  | outOfScope
  | sheet (path : Path) (sheet : ParsedSheet)
  /-- A stylesheet that does not parse. -/
  | faulty (path : Path) (reason : String)

namespace Contribution

/-- The selectors that a contribution uses. -/
def used : Contribution → SelectorSet
  | usage u => u
  | _ => .empty

/-- The stylesheet of a contribution. -/
def sheet? : Contribution → Option (Path × ParsedSheet)
  | sheet p s => some (p, s)
  | _ => none

/-- The stylesheet that a contribution leaves out. -/
def faulty? : Contribution → Option (Path × String)
  | faulty p r => some (p, r)
  | _ => none

/-- Whether the text of the file was read. -/
def isRead : Contribution → Bool
  | nothing => false
  | _ => true

end Contribution

/-- What a file with the given text contributes. -/
def contributeText (s : Settings) (file : SourceFile) (text : String) : Contribution :=
  if file.kind ≠ .stylesheet then .usage (used file.kind text)
  else if !s.includesSheet file.path then .outOfScope
  else
    let outline := Sheet.Outline.ofText text
    match outline.error? text with
    | none => .sheet file.path ⟨text, outline, outline.declared⟩
    | some e => .faulty file.path e.message

/-- What a file contributes, if its task finds the pass cancelled or not. -/
def contribute (w : Workspace) (s : Settings) (file : SourceFile) (cancelled : Bool) :
    Contribution :=
  if cancelled then .nothing
  else match w.tree.read? w.here file.path with
    | some text => contributeText s file text
    | none => .nothing

/-- What is known of a project. -/
structure Analysis where
  root : Path
  /-- The stylesheets that are reported on, each once. -/
  sheets : List (Path × ParsedSheet)
  used : SelectorSet
  unused : SelectorSet
  skipped : List Skipped
  /-- The number of files that were read. -/
  filesRead : Nat

/-- Keeps the first of the entries whose paths have the same parts. -/
def distinctPaths : List (Path × α) → List (Path × α)
  | [] => []
  | e :: es => e :: (distinctPaths es).filter (·.1.parts != e.1.parts)

/-- The analysis of a project, from the stylesheets that parse, those that do not, the selectors that
its files use and the number of files that were read. -/
def Analysis.assemble (root : Path) (sheets : List (Path × ParsedSheet))
    (faulty : List (Path × String)) (used : SelectorSet) (filesRead : Nat) : Analysis :=
  let declared := sheets.foldl (fun d (_, s) => d.union s.declared) .empty
  let skipped := faulty.map fun (p, reason) => (⟨(root.within p).text, reason⟩ : Skipped)
  { root := root
    sheets := sheets
    used := used
    unused := Selector.unused declared used
    skipped := skipped.mergeSort fun a b => a.file ≤ b.file
    filesRead := filesRead }

/-- The analysis that contributions make. -/
def Analysis.ofContributions (root : Path) (cs : List Contribution) : Analysis :=
  .assemble root (distinctPaths (cs.filterMap Contribution.sheet?))
    (distinctPaths (cs.filterMap Contribution.faulty?))
    (cs.foldl (fun u c => u.union c.used) .empty) (cs.countP Contribution.isRead)

/-- When tasks look whether their pass is cancelled, what they see: task number `n` sees `c n`, and
the last look, after all tasks, is the one with their number. -/
abbrev Looks := Nat → Bool

/-- Nothing is ever cancelled. -/
def Looks.never : Looks := fun _ => false

/-- Analyses files. The result is given up if the pass is cancelled at the end. -/
def analyze (w : Workspace) (s : Settings) (files : List SourceFile) (looks : Looks) :
    Except AuditError (Option Analysis) :=
  match s.root with
  | none => .error .noRoot
  | some root =>
      let cs := files.zipIdx.map fun (file, n) => contribute w s file (looks n)
      if looks files.length then .ok none else .ok (some (.ofContributions root cs))

namespace Finding

/-- Findings sort by file, line and column. -/
def le (a b : Finding) : Bool :=
  a.file < b.file ||
    (a.file == b.file && (a.line < b.line || (a.line == b.line && a.column ≤ b.column)))

end Finding

/-- The unused selectors of a stylesheet, where they stand. -/
def sheetFindings (root : Path) (unused : SelectorSet) (p : Path) (s : ParsedSheet) :
    List Finding :=
  let chars := s.text.toList
  (s.outline.occurrences unused).map fun e =>
    let position := Text.Position.of chars e.span.start
    ⟨(root.within p).text, e.text, position.line, position.column⟩

/-- Where unused selectors stand, by file and position. -/
def Analysis.findings (a : Analysis) : List Finding :=
  (a.sheets.flatMap fun (p, s) => sheetFindings a.root a.unused p s).mergeSort Finding.le

end StyleAudit.Project
