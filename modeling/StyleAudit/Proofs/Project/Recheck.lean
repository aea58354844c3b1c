import Mathlib
import StyleAudit.Proofs.Files.Collecting
import StyleAudit.Proofs.Project.Fixing
import StyleAudit.Proofs.Sheet.Remains

/-! # Auditing again after a fix

The findings that a fix leaves are told without a look at the files that it made. Another audit of
these files finds the same selectors in the same files, except for those that stood inside a deleted
rule and were not to be removed: they are told of, but they are gone.

* **`Finding.label`** — the file and the selector of a finding.
* **`Audit.Removable`**, **`Audit.losses`** — nothing keeps a rule from being removed; what stands
  inside deleted rules.
* **`acceptedText?_after`** — what a fix makes of the stylesheets.
* **`Audit.exists_check_again`** — the findings of another audit, and what is lost.
* **`perm_labels_iff_of_check`** — both audits tell the same exactly when nothing is lost.
* **`labels_ne_of_check`** — a nested rule is lost, and still told of. -/

namespace StyleAudit.Project

open Files

variable {s s' : Settings} {w w' : Workspace} {r : CheckResult} {root : Path}

/-! ## What findings are about -/

/-- The file and the selector of a finding. -/
def Finding.label (f : Finding) : String × String := (f.file, f.selector)

/-- The files and selectors of the findings of an audit. -/
def CheckResult.labels (r : CheckResult) : List (String × String) := r.findings.map Finding.label

/-- The selectors of a stylesheet that are kept, with the name of its file. -/
def labelsOf (root : Path) (keep : String → Bool) (e : Path × String) : List (String × String) :=
  ((Sheet.texts (Sheet.Outline.ofText e.2).rules).filter keep).map fun x =>
    ((root.within e.1).text, x)

/-- The findings of a stylesheet, by their selectors. -/
theorem map_label_sheetFindings (unused : SelectorSet) (keep : String → Bool) (e : Path × String) :
    ((sheetFindings root unused e.1 (.ofText e.2)).filter fun f => keep f.selector).map
        Finding.label =
      labelsOf root (fun x => keep x && decide (x ∈ unused)) e := by
  rw [sheetFindings, ParsedSheet.ofText, Sheet.occurrences_eq_filter, List.filter_map,
    List.map_map, List.filter_filter, labelsOf, ← Sheet.map_text_entries, List.filter_map,
    List.map_map]
  rfl

/-- **The findings of an analysis**, by their files and selectors. -/
theorem labels_perm {a : Analysis} {sheets : List (Path × String)}
    (h : a.sheets.Perm (sheets.map parsed)) (keep : String → Bool) :
    ((a.findings.filter fun f => keep f.selector).map Finding.label).Perm
      (sheets.flatMap (labelsOf a.root fun x => keep x && decide (x ∈ a.unused))) := by
  have hfindings : a.findings.Perm (sheets.flatMap fun e =>
      sheetFindings a.root a.unused e.1 (.ofText e.2)) := by
    refine (List.mergeSort_perm _ _).trans ((h.flatMap_right _).trans ?_)
    rw [List.flatMap_map]
    exact .refl _
  refine ((hfindings.filter _).map _).trans (.of_eq ?_)
  rw [List.filter_flatMap, List.map_flatMap]
  exact List.flatMap_congr fun e _ => map_label_sheetFindings a.unused keep e

/-! ## What a fix makes of a text -/

/-- A text after the selectors that are to be removed from it are removed. Outcomes are compared by
their texts, never by evaluating plans. -/
@[irreducible]
def outcome (a : Analysis) (s : Settings) (text : String) : String :=
  if isFixed a s text then
    match Edit.applyAll (planFor a s text) text with
    | .ok text' => text'
    | .error _ => text
  else text

namespace Audit

variable (p : Audit s w)

/-- **Nothing keeps a rule from being removed**: blanks after deleted rules are whitespace, no comma
stands before them, and what is left of a selector list is read as it was. -/
def Removable : Prop :=
  ∀ e ∈ p.fixed, ∀ r ∈ Sheet.exposed (targetsIn p.analysis s e.2) (Sheet.Outline.ofText e.2).rules,
    r.Removable (targetsIn p.analysis s e.2) e.2.toList

/-- Whether a selector is unused but not to be removed. -/
def stays (x : String) : Bool := !s.includesSelector x && decide (x ∈ p.analysis.unused)

/-- The selectors inside the deleted rules of a text that are unused but not to be removed. -/
def lossesIn (text : String) : List String :=
  (Sheet.texts (Sheet.swallowed (targetsIn p.analysis s text)
    (Sheet.Outline.ofText text).rules)).filter p.stays

/-- The selectors inside deleted rules that are unused but not to be removed, with the names of their
files. -/
def losses : List (String × String) :=
  p.sheets.flatMap fun e => (p.lossesIn e.2).map fun x => ((p.root.within e.1).text, x)

/-- What a fix leaves of a text. -/
structure Leaves (text text' : String) : Prop where
  accepted : ∃ selectors, Sheet.declared? text' = .ok selectors
  /-- What is left was there before, and is unused only if it is not to be removed. -/
  stays : ∀ x ∈ Sheet.texts (Sheet.Outline.ofText text').rules,
    x ∈ Sheet.texts (Sheet.Outline.ofText text).rules ∧ (x ∈ p.analysis.unused → p.stays x = true)
  /-- What is not to be removed is left or lost. -/
  perm : ((Sheet.texts (Sheet.Outline.ofText text).rules).filter p.stays).Perm
    ((Sheet.texts (Sheet.Outline.ofText text').rules).filter p.stays ++ p.lossesIn text)

variable {p}

/-- What stays is not removed. -/
theorem not_mem_targetsIn_of_stays {x text : String} (h : p.stays x = true) :
    x ∉ targetsIn p.analysis s text := by
  intro hx
  simp [stays, (mem_targetsIn.1 hx).2.2] at h

/-- What is unused and not removed stays. -/
theorem stays_of_not_mem_targetsIn {x text : String}
    (hx : x ∈ Sheet.texts (Sheet.Outline.ofText text).rules)
    (hnot : x ∉ targetsIn p.analysis s text) (hunused : x ∈ p.analysis.unused) :
    p.stays x = true := by
  rw [mem_targetsIn, Sheet.mem_declared_iff] at hnot
  rw [stays, Bool.and_eq_true, decide_eq_true_iff, Bool.not_eq_true']
  refine ⟨?_, hunused⟩
  by_contra hincludes
  exact hnot ⟨hx, hunused, by simpa using hincludes⟩

/-- **A text that is fixed** is left with what remains. -/
theorem leaves_of_remaining {text text' : String}
    (haccepted : ∃ selectors, Sheet.declared? text' = .ok selectors)
    (h : (Sheet.Outline.ofText text').rules.map (fun r => (r.entries.map Sheet.Entry.text, r.depth)) =
      Sheet.remaining (targetsIn p.analysis s text) (Sheet.Outline.ofText text).rules) :
    p.Leaves text text' where
  accepted := haccepted
  stays := by
    intro x hx
    obtain ⟨hx, hnot⟩ := Sheet.mem_texts_of_remaining h hx
    exact ⟨hx, stays_of_not_mem_targetsIn hx hnot⟩
  perm := Sheet.perm_texts_of_remaining h fun x _ hx => not_mem_targetsIn_of_stays hx

/-- A text of which nothing is removed is left as it is. -/
theorem leaves_self {text : String} (haccepted : ∃ selectors, Sheet.declared? text = .ok selectors)
    (hfixed : isFixed p.analysis s text = false) : p.Leaves text text := by
  have hnone : ∀ x, x ∉ targetsIn p.analysis s text := by
    intro x hx
    rw [isFixed_iff.2 ⟨x, hx⟩] at hfixed
    cases hfixed
  exact leaves_of_remaining haccepted (Sheet.remaining_of_forall_not_mem hnone _).symm

/-- Where nothing keeps a rule from being removed, all plans can be applied. -/
theorem applies_of_removable (hrem : p.Removable) : p.Applies := by
  intro e he
  have haccepted := p.accepted.exists_declared? (mem_sheets_of_mem_fixed he)
  obtain ⟨text', happly, -⟩ := Sheet.exists_text_remaining _ haccepted (hrem e he)
  exact ⟨text', happly⟩

/-- **What a fix leaves** of the stylesheets of an audit. -/
theorem leaves_outcome (hrem : p.Removable) {e : Path × String} (he : e ∈ p.sheets) :
    p.Leaves e.2 (outcome p.analysis s e.2) := by
  have haccepted := p.accepted.exists_declared? he
  rw [outcome]
  split
  · rename_i hfixed
    obtain ⟨text', happly, haccepted', hrules⟩ :=
      Sheet.exists_text_remaining (targetsIn p.analysis s e.2) haccepted
        (hrem e (List.mem_filter.2 ⟨he, hfixed⟩))
    rw [planFor, happly]
    exact leaves_of_remaining haccepted' hrules
  · rename_i hfixed
    exact leaves_self haccepted (by simpa using hfixed)

/-! ## What a fix makes of the files -/

/-- The files that an audit goes through have the kinds that their paths tell. -/
theorem kind_of_mem_files (p : Audit s w) {f : SourceFile} (hf : f ∈ p.files) :
    FileKind.ofPath? f.path = some f.kind := by
  have h := p.files_eq
  rw [projectFiles] at h
  split at h
  · cases h
  · rename_i files hcollect
    split at h
    · obtain rfl := Except.ok.inj h
      exact kind_of_mem_collect hcollect hf
    · cases h

/-- An audit writes to stylesheets only. -/
theorem writesSheets (p : Audit s w) : w.tree.WritesSheets w.here p.writes := by
  rintro ⟨l, text⟩ hw
  obtain ⟨e, he, hl, -⟩ := mem_writes_iff.1 hw
  obtain ⟨f, hf, hpath, htext⟩ := p.accepted.sound e (mem_sheets_of_mem_fixed he)
  refine ⟨e.1, hl, ?_⟩
  rw [← hpath, p.kind_of_mem_files hf]
  exact congrArg some (kind_of_sheetText? (acceptedText?_eq_some_iff.1 htext).1)

/-- The files after a fix. -/
def fixedTree (p : Audit s w) : FileTree := w.tree.rewrite p.writes

/-- Every path leads where it led before. -/
theorem resolve_fixedTree (p : Audit s w) (q : Path) :
    p.fixedTree.resolve w.here q = w.tree.resolve w.here q :=
  p.hasFiles_writes.alike_rewrite.resolve_eq _ _

/-- A file that is no stylesheet is read as before. -/
theorem read?_fixedTree_of_kind {f : SourceFile} (hf : f ∈ p.files) (hkind : f.kind ≠ .stylesheet) :
    p.fixedTree.read? w.here f.path = w.tree.read? w.here f.path :=
  p.writesSheets.read?_eq p.hasFiles_writes (p.kind_of_mem_files hf) hkind

/-- Where something is written, an accepted stylesheet with something to remove stood. -/
theorem exists_of_mem_places {l : Location} (h : l ∈ p.writes.map Prod.fst) :
    ∃ e ∈ p.fixed, w.tree.get? l = some (.file (.text e.2)) := by
  obtain ⟨⟨k, text⟩, hw, rfl⟩ := List.mem_map.1 h
  obtain ⟨e, he, hl, -⟩ := mem_writes_iff.1 hw
  exact ⟨e, he, get?_of_mem_fixed he hl⟩

/-- **A stylesheet that is accepted** is read with what the fix makes of it. -/
theorem read?_fixedTree_of_accepted (hrem : p.Removable) {f : SourceFile} (hf : f ∈ p.files)
    {text : String} (htext : acceptedText? w p.prepared f = some text) :
    p.fixedTree.read? w.here f.path = some (outcome p.analysis s text) := by
  obtain ⟨l, hl, hplace⟩ := FileTree.read?_eq_some_iff.1
    (read?_of_sheetText? (acceptedText?_eq_some_iff.1 htext).1)
  rw [outcome]
  split
  · rename_i hfixed
    -- the path that is kept leads to the same place
    obtain ⟨path, hmem, hparts⟩ := p.accepted.complete f hf text htext
    have he : (path, text) ∈ p.fixed := List.mem_filter.2 ⟨hmem, hfixed⟩
    obtain ⟨text', htext'⟩ := applies_of_removable hrem _ he
    obtain ⟨k, hk, hread⟩ := FileTree.read?_eq_some_iff.1 (read?_rewrite he htext')
    have hsame : k = l := by
      have hfold := FileTree.foldlM_parts_of_resolve ((p.resolve_fixedTree path).symm.trans hk)
      rw [hparts, FileTree.foldlM_parts_of_resolve hl] at hfold
      exact (Except.ok.inj hfold).symm
    simp only [htext']
    exact FileTree.read?_eq_some_iff.2 ⟨l, (p.resolve_fixedTree _).trans hl, hsame ▸ hread⟩
  · rename_i hfixed
    refine FileTree.read?_eq_some_iff.2 ⟨l, (p.resolve_fixedTree _).trans hl, ?_⟩
    rw [fixedTree, p.hasFiles_writes.get?_rewrite_of_not_mem, hplace]
    intro hmem
    obtain ⟨e, he, hplace'⟩ := exists_of_mem_places hmem
    rw [hplace] at hplace'
    have hsame : text = e.2 := by simpa using hplace'
    exact hfixed (hsame ▸ (List.mem_filter.1 he).2)

/-- **A stylesheet that is rejected or out of scope** is read as before. -/
theorem sheetText?_fixedTree_of_rejected {f : SourceFile}
    (htext : acceptedText? w p.prepared f = none) :
    sheetText? { w with tree := p.fixedTree } p.prepared f = sheetText? w p.prepared f := by
  by_cases hscope : f.kind = .stylesheet ∧ p.prepared.includesSheet f.path = true
  · have hsheet : sheetText? w p.prepared f = w.tree.read? w.here f.path := if_pos hscope
    rw [hsheet, sheetText?, if_pos hscope, FileTree.read?, FileTree.read?, p.resolve_fixedTree]
    cases hl : w.tree.resolve w.here f.path with
    | error e => rfl
    | ok l =>
        have hout : l ∉ p.writes.map Prod.fst := by
          intro hmem
          -- an accepted stylesheet would stand there
          obtain ⟨e, he, hplace⟩ := exists_of_mem_places hmem
          rw [FileTree.read?_eq_some_iff.2 ⟨l, hl, hplace⟩] at hsheet
          obtain ⟨selectors, hdeclared⟩ := p.accepted.exists_declared? (mem_sheets_of_mem_fixed he)
          obtain ⟨-, rfl⟩ := Sheet.declared?_eq_ok_iff.1 hdeclared
          rw [acceptedText?_eq_some_iff.2 ⟨hsheet, hdeclared⟩] at htext
          cases htext
        show p.fixedTree.textAt? l = w.tree.textAt? l
        rw [FileTree.textAt?, FileTree.textAt?, FileTree.file?, FileTree.file?, fixedTree,
          p.hasFiles_writes.get?_rewrite_of_not_mem hout]
  · rw [sheetText?, sheetText?, if_neg hscope, if_neg hscope]

/-- **What a fix makes of the stylesheets** that are accepted. -/
theorem acceptedText?_fixedTree (hrem : p.Removable) {f : SourceFile}
    (hf : f ∈ p.files) : acceptedText? { w with tree := p.fixedTree } p.prepared f =
      (acceptedText? w p.prepared f).map (outcome p.analysis s) := by
  cases htext : acceptedText? w p.prepared f with
  | none =>
      rw [acceptedText?, sheetText?_fixedTree_of_rejected htext]
      exact htext
  | some text =>
      obtain ⟨path, hmem, -⟩ := p.accepted.complete f hf text htext
      obtain ⟨selectors, hdeclared⟩ := (leaves_outcome hrem hmem).accepted
      obtain ⟨-, rfl⟩ := Sheet.declared?_eq_ok_iff.1 hdeclared
      rw [Option.map_some, acceptedText?_eq_some_iff]
      refine ⟨?_, hdeclared⟩
      have hscope : f.kind = .stylesheet ∧ p.prepared.includesSheet f.path = true := by
        by_contra hnot
        have hsheet := (acceptedText?_eq_some_iff.1 htext).1
        rw [sheetText?, if_neg hnot] at hsheet
        cases hsheet
      rw [sheetText?, if_pos hscope]
      exact read?_fixedTree_of_accepted hrem hf htext

/-! ## The analysis of what a fix leaves -/

/-- The analysis of the files after a fix. -/
def again (p : Audit s w) : Analysis :=
  analysisOf { w with tree := p.fixedTree } p.prepared p.root p.files

/-- The analysis that an audit goes on from. -/
theorem analysis_eq (p : Audit s w) : p.analysis = analysisOf w p.prepared p.root p.files := by
  have h := p.analyze_eq
  rw [analyze_never p.root_eq] at h
  exact (Option.some.inj (Except.ok.inj h)).symm

/-- The stylesheets that an audit goes on from. -/
theorem sheets_of_analysis (p : Audit s w) : p.analysis.sheets =
    distinctPaths (p.files.filterMap fun f =>
      (acceptedText? w p.prepared f).map fun text => (f.path, .ofText text)) := by
  rw [p.analysis_eq, sheets_analysisOf]

/-- After a fix the same selectors are used. -/
theorem used_again (p : Audit s w) : p.again.used = p.analysis.used := by
  rw [p.analysis_eq]
  refine SelectorSet.ext fun x => ?_
  show x ∈ List.foldl _ _ _ ↔ x ∈ List.foldl _ _ _
  rw [mem_foldl_used, mem_foldl_used]
  refine exists_congr fun f => and_congr_right fun hf => and_congr_right fun hkind => ?_
  rw [read?_fixedTree_of_kind hf hkind]

/-- Keeping the first of several entries for a path does not depend on what the entries hold. -/
theorem distinctPaths_map {α β : Type} (g : α → β) (es : List (Path × α)) :
    distinctPaths (es.map fun e => (e.1, g e.2)) = (distinctPaths es).map fun e => (e.1, g e.2) := by
  induction es with
  | nil => rfl
  | cons e es ih =>
      rw [List.map_cons, distinctPaths, distinctPaths, ih, List.map_cons, List.filter_map]
      rfl

/-- The stylesheets that were analysed. -/
theorem sheets_perm (p : Audit s w) : p.analysis.sheets.Perm (p.sheets.map parsed) := by
  rw [← p.sheets_eq]
  exact (List.mergeSort_perm _ _).symm

/-- **The stylesheets after a fix** are those that were analysed, as the fix made them. -/
theorem sheets_again (hrem : p.Removable) :
    p.again.sheets.Perm
      ((p.sheets.map fun e => (e.1, outcome p.analysis s e.2)).map parsed) := by
  have hmap : p.again.sheets = p.analysis.sheets.map fun e =>
      (e.1, ParsedSheet.ofText (outcome p.analysis s e.2.text)) := by
    have hbefore := p.sheets_of_analysis
    rw [again, sheets_analysisOf, hbefore, ← distinctPaths_map fun sheet : ParsedSheet =>
      ParsedSheet.ofText (outcome p.analysis s sheet.text), List.map_filterMap]
    refine congrArg _ (List.filterMap_congr fun f hf => ?_)
    rw [acceptedText?_fixedTree hrem hf, Option.map_map, Option.map_map]
    rfl
  rw [hmap]
  refine (p.sheets_perm.map _).trans (.of_eq ?_)
  rw [List.map_map, List.map_map]
  rfl

/-- A selector is unused when a stylesheet declares it, and it is neither used nor ambiguous. -/
theorem mem_unused_analysisOf {v : Workspace} {files : List SourceFile} {x : String}
    {sheets : List (Path × String)}
    (h : (analysisOf v s' root files).sheets.Perm (sheets.map parsed)) :
    x ∈ (analysisOf v s' root files).unused ↔
      (∃ e ∈ sheets, x ∈ Sheet.texts (Sheet.Outline.ofText e.2).rules) ∧
        x ∉ (analysisOf v s' root files).used ∧ Selector.isAmbiguous x = false := by
  show x ∈ Selector.unused
    ((analysisOf v s' root files).sheets.foldl (fun d e => d.union e.2.declared) .empty)
    (analysisOf v s' root files).used ↔ _
  rw [Selector.unused, SelectorSet.mem_filter, mem_foldl_union, Bool.and_eq_true,
    Bool.not_eq_true', Bool.not_eq_true', decide_eq_false_iff_not]
  refine and_congr_left fun _ => ?_
  simp only [SelectorSet.not_mem_empty, false_or, h.mem_iff, List.mem_map, exists_exists_and_eq_and]
  simp only [parsed, ParsedSheet.ofText, Sheet.mem_declared_iff]

/-- **What is left of a stylesheet** is unused after a fix when it was unused before and is not to be
removed. -/
theorem mem_unused_again (hrem : p.Removable) {e : Path × String}
    (he : e ∈ p.sheets) {x : String}
    (hx : x ∈ Sheet.texts (Sheet.Outline.ofText (outcome p.analysis s e.2)).rules) :
    x ∈ p.again.unused ↔ p.stays x = true := by
  obtain ⟨hbefore, hstays⟩ := (leaves_outcome hrem he).stays x hx
  have hagain : x ∈ p.again.unused ↔ x ∉ p.again.used ∧ Selector.isAmbiguous x = false := by
    rw [again, mem_unused_analysisOf (sheets_again hrem)]
    exact and_iff_right ⟨_, List.mem_map_of_mem he, hx⟩
  have honce : x ∈ p.analysis.unused ↔ x ∉ p.analysis.used ∧ Selector.isAmbiguous x = false := by
    have hperm := p.sheets_perm
    rw [p.analysis_eq] at hperm ⊢
    rw [mem_unused_analysisOf hperm]
    exact and_iff_right ⟨e, he, hbefore⟩
  rw [hagain, p.used_again, ← honce]
  refine ⟨hstays, fun h => ?_⟩
  rw [stays, Bool.and_eq_true, decide_eq_true_iff] at h
  exact h.2

/-! ## What both audits tell -/

/-- A finding is taken away by a fix exactly when its selector is to be removed. -/
theorem any_covers_eq {f : Finding} (hf : f ∈ p.analysis.findings) :
    p.fixes.any (·.covers f) = s.includesSelector f.selector := by
  rw [Bool.eq_iff_iff, List.any_eq_true]
  constructor
  · rintro ⟨fix, hfix, hcovers⟩
    obtain ⟨e, -, rfl⟩ := List.mem_map.1 hfix
    rw [Fix.covers, Bool.and_eq_true, List.contains_iff_mem] at hcovers
    have htarget : f.selector ∈ targetsIn p.analysis s e.2 := hcovers.2
    exact (mem_targetsIn.1 htarget).2.2
  · intro hincludes
    exact covers_of_mem_findings hincludes hf

/-- **What a fix tells of** are the selectors that are unused and not to be removed. -/
theorem labels_result (hfix : s.fix = true) (hdry : s.dryRun = false) :
    p.result.labels.Perm (p.sheets.flatMap (labelsOf p.root p.stays)) := by
  have hfindings : p.result.findings =
      p.analysis.findings.filter fun f => !s.includesSelector f.selector := by
    rw [result, if_pos hfix]
    show remaining s p.analysis.findings p.fixes = _
    rw [remaining, hdry, if_neg Bool.false_ne_true]
    exact List.filter_congr fun f hf => by rw [any_covers_eq hf]
  rw [CheckResult.labels, hfindings, ← p.analysis_root]
  exact labels_perm p.sheets_perm fun x => !s.includesSelector x

/-- **What an audit tells of after a fix** is what is left of that. -/
theorem labels_again (hrem : p.Removable) :
    (p.again.findings.map Finding.label).Perm
      (p.sheets.flatMap fun e => labelsOf p.root p.stays (e.1, outcome p.analysis s e.2)) := by
  have hall := labels_perm (sheets_again hrem) fun _ => true
  rw [List.filter_true, List.flatMap_map] at hall
  refine hall.trans (.of_eq (List.flatMap_congr fun e he => ?_))
  refine congrArg (List.map _) (List.filter_congr fun x hx => ?_)
  rw [Bool.eq_iff_iff, Bool.true_and, decide_eq_true_iff]
  exact mem_unused_again hrem he hx

/-- **What a fix tells of** is what an audit after it tells of, and what was lost. -/
theorem labels_result_perm (hfix : s.fix = true) (hdry : s.dryRun = false) (hrem : p.Removable)
    :
    p.result.labels.Perm (p.again.findings.map Finding.label ++ p.losses) := by
  refine (labels_result hfix hdry).trans ?_
  refine .trans ?_ ((labels_again hrem).symm.append_right _)
  refine .trans ?_ (List.flatMap_append_perm _ _ _).symm
  refine List.Perm.flatMap_left _ fun e he => ?_
  have hone := (leaves_outcome hrem he).perm.map fun x => ((p.root.within e.1).text, x)
  rw [List.map_append] at hone
  exact hone

end Audit

/-! ## Auditing again -/

/-- Settings that ask about the same files and stylesheets. -/
structure Settings.SameScope (s s' : Settings) : Prop where
  root_eq : s'.root = s.root
  exclude_eq : s'.exclude = s.exclude
  stylesheet_eq : s'.stylesheet = s.stylesheet

namespace Audit

variable {p : Audit s w}

/-- The settings of another audit, with their root and stylesheet found. -/
def preparedAgain (p : Audit s w) (s' : Settings) : Settings :=
  { s' with root := some p.root, stylesheet := p.prepared.stylesheet }

/-- The root and the stylesheet are found where they were. -/
theorem prepare_again (p : Audit s w) (hscope : s.SameScope s') :
    s'.prepare { w with tree := p.fixedTree } = .ok (p.preparedAgain s') := by
  have hsettle : Workspace.settle { w with tree := p.fixedTree } = w.settle := by
    funext q
    rw [Workspace.settle, Workspace.settle, p.resolve_fixedTree]
  have hrepository : findRepository? { w with tree := p.fixedTree } = findRepository? w := by
    rw [findRepository?, findRepository?]
    simp only [fixedTree, (p.hasFiles_writes.alike_rewrite _).1]
  have h := p.prepare_eq
  have hroot := p.root_eq
  unfold Settings.prepare at h ⊢
  rw [hscope.root_eq, hscope.stylesheet_eq, hrepository, hsettle]
  split at h
  · cases h
  · have hprepared := Except.ok.inj h
    rw [← hprepared, Option.some.injEq] at hroot
    rw [preparedAgain, ← hprepared, ← hroot]

/-- The same files are collected. -/
theorem projectFiles_again (p : Audit s w) (hdistinct : w.tree.Distinct) (hscope : s.SameScope s') :
    projectFiles (p.preparedAgain s') { w with tree := p.fixedTree } p.root = .ok p.files := by
  have hguides : p.fixedTree.SameGuides w.tree := p.writesSheets.sameGuides p.hasFiles_writes
  have hfiles : p.fixedTree.filesIn = w.tree.filesIn := hdistinct.filesIn_rewrite p.hasFiles_writes
  obtain ⟨root, sheet, hprepared⟩ := Settings.exists_prepared p.prepare_eq
  have hexclude : (p.preparedAgain s').exclude = p.prepared.exclude := by
    rw [hprepared]
    exact hscope.exclude_eq
  rw [← p.files_eq, projectFiles, projectFiles, hexclude, hguides.collect_eq hfiles]

/-- **An audit of the files after a fix** comes to their analysis. -/
theorem check_again (p : Audit s w) (hdistinct : w.tree.Distinct) (hscope : s.SameScope s')
    (hfix : s'.fix = false) :
    check s' { w with tree := p.fixedTree } =
      ({ w with tree := p.fixedTree }, .ok (p.again.result p.again.findings [])) := by
  have hanalyze : analyze { w with tree := p.fixedTree } (p.preparedAgain s') p.files .never =
      .ok (some p.again) := analyze_never rfl
  have hproject : analyzeProject (p.preparedAgain s') { w with tree := p.fixedTree } =
      .ok p.again := by
    show (projectFiles (p.preparedAgain s') _ p.root).bind _ = _
    rw [p.projectFiles_again hdistinct hscope]
    simp only [Except.bind, hanalyze, bind]
  have hfix' : (p.preparedAgain s').fix = false := hfix
  rw [check, p.prepare_again hscope]
  simp only [hproject, hfix', Bool.false_eq_true, if_false]

end Audit

/-- **Another audit after a fix.** Where nothing keeps a rule from being removed, another audit of
the files that a fix made, with the same scope, succeeds, and it finds the same selectors in the same
files, each as often, exactly when no selector that is unused but not to be removed stood inside a
deleted rule. -/
theorem perm_labels_iff_of_check (p : Audit s w) (h : check s w = (w', .ok r))
    (hdistinct : w.tree.Distinct) (hfix : s.fix = true) (hdry : s.dryRun = false)
    (hrem : p.Removable) (hscope : s.SameScope s') (hfix' : s'.fix = false) :
    ∃ r', check s' w' = (w', .ok r') ∧ (r.labels.Perm r'.labels ↔ p.losses = []) := by
  rw [p.check_eq fun _ => Audit.applies_of_removable hrem] at h
  obtain ⟨rfl, hr⟩ := Prod.mk.inj h
  obtain rfl := Except.ok.inj hr
  rw [p.after_eq hfix hdry]
  refine ⟨_, p.check_again hdistinct hscope hfix', ?_⟩
  have hperm := Audit.labels_result_perm hfix hdry hrem
  constructor
  · intro hsame
    have hlength := hperm.length_eq.symm.trans hsame.length_eq
    rw [List.length_append] at hlength
    exact List.length_eq_zero_iff.1 (Nat.add_eq_left.1 hlength)
  · intro hnone
    rwa [hnone, List.append_nil] at hperm

/-- A rule goes with a rule inside it that is to be removed as well; both audits tell of the class
that stays. -/
theorem perm_labels_iff_of_check_nested :
    let w : Workspace := ⟨⟨[(["a.css"], .file (.text ".a { .a {} }\n.b {}"))]⟩, []⟩
    let s : Settings := { root := some ⟨"/"⟩, selectors := [".a"], fix := true }
    ∃ (p : Audit s w) (w' : Workspace) (r r' : CheckResult), check s w = (w', .ok r) ∧
      w.tree.Distinct ∧ p.Removable ∧ s.SameScope { s with fix := false } ∧
      check { s with fix := false } w' = (w', .ok r') ∧ (r.labels.Perm r'.labels ↔ p.losses = []) ∧
      p.losses = [] ∧ r.labels = [("a.css", ".b")] := by
  intro w s
  obtain ⟨p, hroot, hanalysis, hsheets⟩ := @exists_audit w s { s with root := some ⟨"/"⟩ } ⟨"/"⟩
    [⟨⟨"/a.css"⟩, .stylesheet⟩] (by decide +kernel) rfl (by decide +kernel)
  have hsheets' : p.sheets = [(⟨"/a.css"⟩, ".a { .a {} }\n.b {}")] :=
    hsheets.trans (by decide +kernel)
  have hrem : p.Removable := by
    unfold Audit.Removable Audit.fixed
    rw [hsheets', hanalysis]
    decide +kernel
  have hlosses : p.losses = [] := by
    unfold Audit.losses Audit.lossesIn Audit.stays
    rw [hsheets', hanalysis, hroot]
    decide +kernel
  have hlabels : p.result.labels = [("a.css", ".b")] := by
    rw [← List.perm_singleton]
    refine (Audit.labels_result rfl rfl).trans (.of_eq ?_)
    unfold Audit.stays
    rw [hsheets', hanalysis, hroot]
    decide +kernel
  have hscope : s.SameScope { s with fix := false } := ⟨rfl, rfl, rfl⟩
  have h := p.check_eq fun _ => Audit.applies_of_removable hrem
  obtain ⟨r', h', hiff⟩ := perm_labels_iff_of_check p h (by decide) rfl rfl hrem hscope rfl
  exact ⟨p, _, _, r', h, by decide, hrem, hscope, h', hiff, hlosses, hlabels⟩

/-- **A nested rule is lost, and still told of.** The fix removes the outer rule with the rule inside
it, whose selector was not to be removed; the finding of that rule is left, although another audit
finds nothing. -/
theorem labels_ne_of_check :
    let w : Workspace := ⟨⟨[(["a.css"], .file (.text ".a { .b {} }\n"))]⟩, []⟩
    let s : Settings := { root := some ⟨"/"⟩, selectors := [".a"], fix := true }
    ∃ (w' : Workspace) (r r' : CheckResult), check s w = (w', .ok r) ∧
      w'.tree.textAt? ["a.css"] = some "" ∧ r.labels = [("a.css", ".b")] ∧
      check { s with fix := false } w' = (w', .ok r') ∧ r'.labels = [] := by
  intro w s
  obtain ⟨p, hroot, hanalysis, hsheets⟩ := @exists_audit w s { s with root := some ⟨"/"⟩ } ⟨"/"⟩
    [⟨⟨"/a.css"⟩, .stylesheet⟩] (by decide +kernel) rfl (by decide +kernel)
  have hsheets' : p.sheets = [(⟨"/a.css"⟩, ".a { .b {} }\n")] := hsheets.trans (by decide +kernel)
  have hrem : p.Removable := by
    unfold Audit.Removable Audit.fixed
    rw [hsheets', hanalysis]
    decide +kernel
  have hlabels : p.result.labels = [("a.css", ".b")] := by
    rw [← List.perm_singleton]
    refine (Audit.labels_result rfl rfl).trans (.of_eq ?_)
    unfold Audit.stays
    rw [hsheets', hanalysis, hroot]
    decide +kernel
  have hwrites : p.writes = [(["a.css"], "")] := by
    unfold Audit.writes Audit.fixed
    rw [hsheets', hanalysis]
    decide +kernel
  have hagain : p.again.findings.map Finding.label = [] := by
    rw [← List.perm_nil]
    refine (Audit.labels_again hrem).trans (.of_eq ?_)
    unfold Audit.stays
    rw [hsheets', hanalysis, hroot]
    decide +kernel
  have h := p.check_eq fun _ => Audit.applies_of_removable hrem
  rw [p.after_eq rfl rfl] at h
  refine ⟨_, p.result, _, h, ?_, hlabels, p.check_again (by decide) ⟨rfl, rfl, rfl⟩ rfl, hagain⟩
  rw [hwrites]
  decide +kernel

end StyleAudit.Project
