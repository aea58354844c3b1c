import StyleAudit.Project.Check
import StyleAudit.Report.Style

/-! # Reports for readers

* **`Display`** — how paths and colours are shown.
* **`skippedText`, `fixesText`, `cleanText`, `findingsText`** — the parts of a report.
* **`footer`** — the last line. -/

namespace StyleAudit.Report

open Files Project

/-- How paths and colours are shown. -/
structure Display where
  colors : Bool
  /-- The directory that paths are shown from. -/
  here : Location
  /-- The root that the paths of a result are read from. -/
  root : Option Path
  /-- Whether removals were only planned. -/
  dryRun : Bool
  deriving Inhabited

namespace Display

/-- A text in a style. -/
def paint (d : Display) (s : Style) (text : String) : String := s.paint d.colors text

/-- A path of a result as seen from the working directory; one that cannot be is left alone. -/
def path (d : Display) (file : String) : String :=
  match d.root with
  | none => file
  | some root =>
      match (root.join ⟨file⟩).wayFrom? (Path.ofLocation d.here) with
      | some way => way.text
      | none => file

end Display

/-- A line of text. -/
def line (pieces : List String) : String := String.join pieces ++ "\n"

/-- The stylesheets that were left out. -/
def skippedText (d : Display) (skipped : List Skipped) : String :=
  if skipped.isEmpty then ""
  else
    line [d.paint .failure "✗", " Skipped ", toString skipped.length,
      " stylesheets that do not parse:"] ++
    String.join (skipped.map fun s =>
      line ["  ", d.paint .blue (d.path s.file), " ", d.paint .dimmed s.reason]) ++ "\n"

/-- What was removed, or would be. -/
def fixesText (d : Display) (fixes : List Fix) : String :=
  if fixes.isEmpty then line [d.paint .note "●", " Nothing to remove."]
  else
    let verb := if d.dryRun then "Would remove" else "Removed"
    String.join (fixes.map fun f =>
      line [d.paint .success "✓", " ", verb, " ", d.paint .yellow (", ".intercalate f.removed),
        " from ", d.paint .blue (d.path f.file), " (", toString f.edits, " edits)"]) ++
    (if d.dryRun then line [d.paint .note "●", " Dry run, no files were written."] else "") ++ "\n"

/-- That nothing is unused. -/
def cleanText (d : Display) (stylesheets : Nat) : String :=
  line [d.paint .success "✓", " No unused selectors in ", toString stylesheets, " stylesheets."]

/-- The findings of one file as branches of a tree. -/
def branches (d : Display) (path : String) : List Finding → String
  | [] => ""
  | f :: rest =>
      line [d.paint .dimmed (if rest.isEmpty then "└──" else "├──"), "  ",
        d.paint .yellow f.selector, " ",
        d.paint .dimmed (path ++ ":" ++ toString f.line.toNat ++ ":" ++ toString f.column.toNat)] ++
      branches d path rest

/-- The files of findings, each once and in order. -/
def filesOf (findings : List Finding) : List String :=
  (SelectorSet.ofList (findings.map (·.file))).toList

/-- How many selectors are unused, and where. -/
def summary (d : Display) (findings : List Finding) : String :=
  if findings.isEmpty then ""
  else
    let selectors := (SelectorSet.ofList (findings.map (·.selector))).toList
    line [d.paint .dimmed (String.ofList (List.replicate 60 '─'))] ++
    line [d.paint .bold "Summary"] ++
    line ["  Unused selectors: ", d.paint .warning (toString selectors.length)] ++
    line ["  Occurrences: ", d.paint .yellow (toString findings.length)] ++
    line ["  Stylesheets affected: ", d.paint .yellow (toString (filesOf findings).length)] ++
    line ["  Run with ", d.paint .cyan "--fix", " to remove them."]

/-- The findings, grouped by file. -/
def findingsText (d : Display) (findings : List Finding) : String :=
  line [d.paint .warning "⚠", " Unused selectors detected\n"] ++
  String.join ((filesOf findings).map fun file =>
    let own := findings.filter (·.file == file)
    let path := d.path file
    line [d.paint .title path, " (", d.paint .red (toString own.length), " unused)"] ++
      branches d path own ++ "\n") ++
  summary d findings

/-- How long an audit took. -/
structure Effort where
  milliseconds : Nat
  threads : Nat
  deriving Repr

/-- The last line of a report. -/
def footer (d : Display) (e : Effort) (files : Nat) : String :=
  line ["\n", d.paint .note "●", " Finished in ", d.paint .cyan (toString e.milliseconds), "ms on ",
    d.paint .cyan (toString files), " files (using ", d.paint .cyan (toString e.threads),
    " threads)."]

/-- The whole report of an audit. -/
def reportText (d : Display) (fix : Bool) (e : Effort) (r : CheckResult) : String :=
  skippedText d r.skipped ++ (if fix then fixesText d r.fixes else "") ++
    (if r.findings.isEmpty then cleanText d r.stylesheetsAnalyzed
      else findingsText d r.findings) ++
    footer d e r.filesAnalyzed

end StyleAudit.Report
