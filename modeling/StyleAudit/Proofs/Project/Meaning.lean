import Mathlib
import StyleAudit.Proofs.Files.PathOrder
import StyleAudit.Proofs.Files.Within
import StyleAudit.Proofs.Project.Pass
import StyleAudit.Proofs.Sheet.Faults
import StyleAudit.Proofs.Sheet.Layout
import StyleAudit.Proofs.Text.Position

/-! # What an analysis means

An analysis is told by its files alone. In whatever order the tasks of a pass run, their sets are
merged and their results are visited, the pass returns the same selectors, the same stylesheets that
were left out and the same findings. The findings need no rule for ties: no two of them stand at the
same place.

* **`Analysis.Means`** — what an analysis says of its files.
* **`Collected`** — different files below the root, none of them too long for its positions.
* **`means_ofContributions`** — what files contribute makes an analysis that means what it should.
* **`ending_means`** — so does every pass that is not cancelled. -/

namespace StyleAudit.Project

open Files

/-! ## Meaning -/

/-- What findings are sorted by: the file, the line and the column. -/
def Finding.key (f : Finding) : String ×ₗ ℕ ×ₗ ℕ :=
  toLex (f.file, toLex (f.line.toNat, f.column.toNat))

/-- Where an entry of a stylesheet is found. -/
def findingOf (root : Path) (f : SourceFile) (text : String) (e : Sheet.Entry) : Finding where
  file := (root.within f.path).text
  selector := e.text
  line := (Text.Position.of text.toList e.span.start).line
  column := (Text.Position.of text.toList e.span.start).column

/-- The entries of an accepted stylesheet that are reported. -/
def findingsOf (w : Workspace) (s : Settings) (root : Path) (unused : SelectorSet)
    (f : SourceFile) : List Finding :=
  (acceptedText? w s f).toList.flatMap fun text =>
    ((Sheet.Outline.ofText text).entries.filter fun e => decide (e.text ∈ unused)).map
      (findingOf root f text)

/-- The stylesheet that is left out, if a file is one. -/
def skippedOf? (w : Workspace) (s : Settings) (root : Path) (f : SourceFile) : Option Skipped :=
  (rejection? w s f).map fun reason => ⟨(root.within f.path).text, reason⟩

/-- What an analysis says of its files. -/
structure Analysis.Means (w : Workspace) (s : Settings) (root : Path) (files : List SourceFile)
    (a : Analysis) : Prop where
  root_eq : a.root = root
  /-- The stylesheets are those that are accepted. -/
  sheets : a.sheets.Perm (files.filterMap fun f =>
    (acceptedText? w s f).map fun text => (f.path, .ofText text))
  /-- The selectors that are used are those of the files that are no stylesheets. -/
  used : ∀ x, x ∈ a.used ↔ ∃ f ∈ files, f.kind ≠ .stylesheet ∧
    ∃ text, w.tree.read? w.here f.path = some text ∧ x ∈ Files.used f.kind text
  /-- The unused selectors are declared by an accepted stylesheet, and are neither ambiguous nor
  used. -/
  unused : ∀ x, x ∈ a.unused ↔
    (∃ f ∈ files, ∃ text declared, sheetText? w s f = some text ∧
      Sheet.declared? text = .ok declared ∧ x ∈ declared) ∧
    Selector.isAmbiguous x = false ∧ x ∉ a.used
  /-- Every rejected stylesheet is listed, once. -/
  skipped : a.skipped.Perm (files.filterMap (skippedOf? w s root))
  skipped_sorted : a.skipped.Pairwise fun x y => x.file < y.file
  filesRead : a.filesRead = files.countP fun f => (w.tree.read? w.here f.path).isSome
  /-- Every entry of an accepted stylesheet with an unused text is found, once. -/
  findings : a.findings.Perm (files.flatMap (findingsOf w s root a.unused))
  findings_sorted : a.findings.Pairwise fun x y => x.key < y.key

/-- Different files below the root of a prepared project. Positions in their stylesheets fit into 32
bits. -/
structure Collected (w : Workspace) (s : Settings) (root : Path) (files : List SourceFile) :
    Prop where
  root_eq : s.root = some root
  below : ∀ f ∈ files, root.parts <+: f.path.parts
  distinct : files.Pairwise fun f g => f.path.parts ≠ g.path.parts
  short : ∀ f ∈ files, ∀ text, acceptedText? w s f = some text →
    Text.byteSize text.toList < 2 ^ 32 - 1

variable {w : Workspace} {s : Settings} {root : Path} {files files' : List SourceFile}

/-- The order of the files does not matter. -/
theorem Collected.perm (h : Collected w s root files) (hperm : files'.Perm files) :
    Collected w s root files' where
  root_eq := h.root_eq
  below := fun f hf => h.below f (hperm.mem_iff.1 hf)
  distinct := (hperm.pairwise_iff fun hab => Ne.symm hab).2 h.distinct
  short := fun f hf => h.short f (hperm.mem_iff.1 hf)

/-- **The meaning of an analysis** does not depend on the order of the files. -/
theorem Analysis.Means.perm {a : Analysis} (h : a.Means w s root files)
    (hperm : files.Perm files') : a.Means w s root files' where
  root_eq := h.root_eq
  sheets := h.sheets.trans (hperm.filterMap _)
  used := fun x => by simp only [h.used, hperm.mem_iff]
  unused := fun x => by simp only [h.unused, hperm.mem_iff]
  skipped := h.skipped.trans (hperm.filterMap _)
  skipped_sorted := h.skipped_sorted
  filesRead := h.filesRead.trans (hperm.countP_eq _)
  findings := h.findings.trans (hperm.flatMap_right _)
  findings_sorted := h.findings_sorted

/-! ## Sorting without ties -/

/-- Findings are sorted by their keys. -/
theorem Finding.le_eq : Finding.le = fun a b => decide (a.key ≤ b.key) := by
  funext a b
  rw [Bool.eq_iff_iff, decide_eq_true_iff, Finding.key, Finding.key, Prod.Lex.toLex_le_toLex,
    Prod.Lex.toLex_le_toLex, Finding.le]
  simp [UInt32.lt_iff_toNat_lt, UInt32.le_iff_toNat_le, ← UInt32.toNat_inj]

/-! ## Files that are told apart -/

/-- What is seen from the root tells the files below it apart. -/
theorem Collected.pairwise_within (h : Collected w s root files) :
    files.Pairwise fun f g => (root.within f.path).text ≠ (root.within g.path).text := by
  refine h.distinct.imp_of_mem fun {f g} hf hg hparts hsame => hparts ?_
  exact Path.parts_eq_of_within_eq (h.below f hf) (h.below g hg) hsame

/-- No two stylesheets that are left out have the same name. -/
theorem Collected.pairwise_skippedOf? (h : Collected w s root files) :
    (files.filterMap (skippedOf? w s root)).Pairwise fun x y => x.file ≠ y.file := by
  refine h.pairwise_within.filterMap _ fun f g hfg x hx y hy => ?_
  obtain ⟨reason, -, rfl⟩ := Option.map_eq_some_iff.1 hx
  obtain ⟨reason', -, rfl⟩ := Option.map_eq_some_iff.1 hy
  exact hfg

/-- The entries of a stylesheet lie in its text. -/
theorem start_le_byteSize_of_mem_entries {text : String} {e : Sheet.Entry}
    (he : e ∈ (Sheet.Outline.ofText text).entries) :
    e.span.start ≤ Text.byteSize text.toList := by
  obtain ⟨r, hr, he⟩ := Sheet.Outline.mem_entries.1 he
  obtain ⟨p⟩ := (Sheet.region_ofText text).placed r hr
  exact Sheet.le_byteSize_of_isBoundary (p.isBoundary_entry he).2.1

/-- The findings of one file are told apart by their positions. -/
theorem pairwise_findingOf {f : SourceFile} {text : String}
    (hsize : Text.byteSize text.toList < 2 ^ 32 - 1) :
    ((Sheet.Outline.ofText text).entries.map (findingOf root f text)).Pairwise
      fun x y => x.key < y.key := by
  rw [List.pairwise_map]
  refine (Sheet.pairwise_entries text).imp_of_mem fun {d e} hd he hde => ?_
  have hlt : d.span.start < e.span.start := by
    have := Sheet.start_lt_stop_of_mem_entries hd
    omega
  rw [Finding.key, Finding.key, Prod.Lex.toLex_lt_toLex, Prod.Lex.toLex_lt_toLex]
  refine .inr ⟨rfl, ?_⟩
  have hshort : e.span.start < 2 ^ 32 - 1 := (start_le_byteSize_of_mem_entries he).trans_lt hsize
  rcases Text.Position.before_of_lt hlt hshort with hline | ⟨hline, hcolumn⟩
  · exact .inl hline
  · exact .inr ⟨congrArg UInt32.toNat hline, hcolumn⟩

/-- **No two findings stand at the same place.** -/
theorem Collected.pairwise_findingsOf (h : Collected w s root files) (unused : SelectorSet) :
    (files.flatMap (findingsOf w s root unused)).Pairwise fun x y => x.key ≠ y.key := by
  -- in one file positions tell findings apart, in two files the names do
  refine List.pairwise_flatMap.2
    ⟨fun f hf => ?_, h.pairwise_within.imp fun {f g} hfg x hx y hy => ?_⟩
  · rw [findingsOf]
    cases htext : acceptedText? w s f with
    | none => exact .nil
    | some text =>
        have hone := (@pairwise_findingOf root f text (h.short f hf text htext)).imp
          fun {x y} hxy => ne_of_lt hxy
        rw [Option.toList_some, List.flatMap_singleton]
        exact hone.sublist (List.filter_sublist.map _)
  · have hfile : ∀ {f : SourceFile} {x : Finding}, x ∈ findingsOf w s root unused f →
        x.file = (root.within f.path).text := by
      intro f x hx
      obtain ⟨text, -, hx⟩ := List.mem_flatMap.1 hx
      obtain ⟨e, -, rfl⟩ := List.mem_map.1 hx
      rfl
    intro hkey
    refine hfg ?_
    rw [← hfile hx, ← hfile hy]
    exact congrArg (fun k => (ofLex k).1) hkey

/-! ## From contributions to meaning -/

/-- What different files give under their paths is kept whole. -/
theorem Collected.distinctPaths_filterMap {α : Type} (h : Collected w s root files)
    {g : SourceFile → Option (Path × α)} (hpath : ∀ {f e}, g f = some e → e.1 = f.path) :
    distinctPaths (files.filterMap g) = files.filterMap g := by
  refine distinctPaths_eq_self (h.distinct.filterMap _ fun f f' hff' e he e' he' => ?_)
  rw [hpath he, hpath he']
  exact hff'

/-- The text of a stylesheet is accepted when its selectors can be read. -/
theorem acceptedText?_eq_some_iff {f : SourceFile} {text : String} :
    acceptedText? w s f = some text ↔ sheetText? w s f = some text ∧
      Sheet.declared? text = .ok (Sheet.Outline.ofText text).declared := by
  rw [acceptedText?, Option.filter_eq_some_iff, Sheet.declared?]
  cases (Sheet.Outline.ofText text).error? text <;> simp

/-- The findings of the accepted stylesheets. -/
theorem flatMap_sheetFindings (root : Path) (unused : SelectorSet) :
    ((files.filterMap fun f => (acceptedText? w s f).map fun text =>
        (f.path, ParsedSheet.ofText text)).flatMap fun e =>
          sheetFindings root unused e.1 e.2) =
      files.flatMap (findingsOf w s root unused) := by
  induction files with
  | nil => rfl
  | cons f files ih =>
      rw [List.flatMap_cons, ← ih, List.filterMap_cons, findingsOf]
      cases acceptedText? w s f with
      | none => rfl
      | some text =>
          simp only [Option.map_some, List.flatMap_cons, Option.toList_some, List.flatMap_nil,
            List.append_nil]
          rw [sheetFindings, ParsedSheet.ofText, Sheet.occurrences_eq_filter]
          rfl

/-- The selectors that files use. -/
theorem mem_foldl_used {x : String} :
    x ∈ (files.map fun f => contribute w s f false).foldl
        (fun (u : SelectorSet) c => u.union c.used) .empty ↔
      ∃ f ∈ files, f.kind ≠ .stylesheet ∧
        ∃ text, w.tree.read? w.here f.path = some text ∧ x ∈ Files.used f.kind text := by
  rw [mem_foldl_union]
  simp [mem_used_contribute]

/-- The selectors that accepted stylesheets declare. -/
theorem mem_foldl_declared {x : String} :
    x ∈ (files.filterMap fun f => (acceptedText? w s f).map fun text =>
        (f.path, ParsedSheet.ofText text)).foldl
          (fun (d : SelectorSet) e => d.union e.2.declared) .empty ↔
      ∃ f ∈ files, ∃ text declared, sheetText? w s f = some text ∧
        Sheet.declared? text = .ok declared ∧ x ∈ declared := by
  rw [mem_foldl_union]
  constructor
  · rintro (hx | ⟨e, he, hx⟩)
    · cases hx
    · obtain ⟨f, hf, he⟩ := List.mem_filterMap.1 he
      obtain ⟨text, htext, rfl⟩ := Option.map_eq_some_iff.1 he
      obtain ⟨htext, hdeclared⟩ := acceptedText?_eq_some_iff.1 htext
      exact ⟨f, hf, text, _, htext, hdeclared, hx⟩
  · rintro ⟨f, hf, text, declared, htext, hdeclared, hx⟩
    obtain ⟨-, rfl⟩ := Sheet.declared?_eq_ok_iff.1 hdeclared
    have haccepted := acceptedText?_eq_some_iff.2 ⟨htext, hdeclared⟩
    refine .inr ⟨(f.path, .ofText text), List.mem_filterMap.2 ⟨f, hf, ?_⟩, hx⟩
    rw [haccepted, Option.map_some]

/-- The stylesheets that are left out, as they are listed. -/
theorem map_rejection (root : Path) :
    ((files.filterMap fun f => (rejection? w s f).map fun reason => (f.path, reason)).map
        fun e => (⟨(root.within e.1).text, e.2⟩ : Skipped)) =
      files.filterMap (skippedOf? w s root) := by
  rw [List.map_filterMap]
  refine List.filterMap_congr fun f _ => ?_
  rw [Option.map_map]
  rfl

/-- The stylesheets that different files contribute are those that are accepted. -/
theorem Collected.sheets_eq (h : Collected w s root files) :
    distinctPaths ((files.map fun f => contribute w s f false).filterMap Contribution.sheet?) =
      files.filterMap fun f => (acceptedText? w s f).map fun text => (f.path, .ofText text) := by
  rw [List.filterMap_map]
  refine (h.distinctPaths_filterMap fun he => (read?_of_sheet? he).1).trans ?_
  exact List.filterMap_congr fun f _ => sheet?_contribute

/-- The stylesheets that different files leave out are those that are rejected. -/
theorem Collected.faulty_eq (h : Collected w s root files) :
    distinctPaths ((files.map fun f => contribute w s f false).filterMap Contribution.faulty?) =
      files.filterMap fun f => (rejection? w s f).map fun reason => (f.path, reason) := by
  rw [List.filterMap_map]
  refine (h.distinctPaths_filterMap fun he => (read?_of_faulty? he).1).trans ?_
  exact List.filterMap_congr fun f _ => faulty?_contribute

/-- **What files contribute** makes an analysis that means what it should. -/
theorem Collected.means_ofContributions (h : Collected w s root files) :
    (Analysis.ofContributions root (files.map fun f => contribute w s f false)).Means
      w s root files := by
  rw [Analysis.ofContributions, h.sheets_eq, h.faulty_eq]
  constructor
  case root_eq => rfl
  case sheets => exact .refl _
  case used => exact fun x => mem_foldl_used
  case unused =>
    intro x
    rw [Analysis.assemble, Selector.unused, SelectorSet.mem_filter, Bool.and_eq_true,
      Bool.not_eq_true', decide_eq_false_iff_not, Bool.not_eq_true']
    exact and_congr mem_foldl_declared and_comm
  case skipped => exact (List.mergeSort_perm _ _).trans (.of_eq (map_rejection root))
  case skipped_sorted =>
    -- the names of the files that are left out differ, so the sort meets no ties
    refine @pairwise_lt_mergeSort _ _ _ Skipped.file _ ?_
    exact (congrArg (List.Pairwise _) (map_rejection root)).mpr h.pairwise_skippedOf?
  case filesRead =>
    refine List.countP_map.trans (List.countP_congr fun f _ => ?_)
    rw [Function.comp_apply, isRead_contribute]
  case findings => exact (List.mergeSort_perm _ _).trans (.of_eq (flatMap_sheetFindings root _))
  case findings_sorted =>
    -- nor does the sort of the findings
    rw [Analysis.findings, Finding.le_eq]
    refine pairwise_lt_mergeSort ?_
    exact (congrArg (List.Pairwise _) (flatMap_sheetFindings root _)).mpr
      (h.pairwise_findingsOf _)

/-- The analysis of files whose tasks see nothing. -/
theorem Collected.exists_analyze (h : Collected w s root files) :
    ∃ a, analyze w s files .never = .ok (some a) ∧ a.Means w s root files := by
  refine ⟨_, ?_, h.means_ofContributions⟩
  have hlooks := @Pass.analyze_looksOf w _ _ h.root_eq
    (files.map fun f => (⟨f, false⟩ : Task)) false
  rw [Pass.looksOf_eq_never (by simp), List.map_map, List.map_map] at hlooks
  simpa [Function.comp_def, Task.contribution] using hlooks

/-- **Every pass that is not cancelled returns what its files mean.** It can be brought to its end,
and whatever the order of its steps and the orders in which its results are visited, it returns an
analysis that means what it should; so does the analysis of the files one after the other. -/
theorem Collected.ending_means (h : Collected w s root files) {scheduler : Schedule.Scheduler}
    {ticket : Option Schedule.Ticket} {p : Pass}
    (hstart : (Pass.start scheduler ticket files).isCancelled = false)
    (hrun : ReachesQuietly w s (.start scheduler ticket files) p) :
    (∃ a, analyze w s files .never = .ok (some a) ∧ a.Means w s root files) ∧
    (∃ q, ReachesQuietly w s p q ∧ Nonempty q.Ending) ∧
    ∀ e : p.Ending, ∃ a, e.result s = .ok (some a) ∧ a.Means w s root files := by
  obtain ⟨hp, hundisturbed⟩ := Pass.undisturbed_of_reachesQuietly hstart
    (fun t ht => by simp [Pass.start, Pass.tasks] at ht) hrun
  refine ⟨h.exists_analyze, ?_, fun e => ?_⟩
  · obtain ⟨q, hq, hcalls, hending⟩ := Pass.exists_ending w s p
    exact ⟨q, (Pass.reachesQuietly_of_calls_eq hp hq hcalls).1, hending⟩
  · have hreaches : Reaches w s (.start scheduler ticket files) p :=
      hrun.lift id fun _ _ hstep => hstep.1
    obtain ⟨files', hfiles, hresult⟩ := e.exists_analyze_never
      ((Pass.accounts_start scheduler ticket).reaches hreaches) hp hundisturbed
    obtain ⟨a, ha, hmeans⟩ := (h.perm hfiles).exists_analyze
    exact ⟨a, hresult.symm.trans ha, hmeans.perm hfiles⟩

/-- A project with a stylesheet whose selectors are partly used, one that is left out and a page. -/
theorem ending_means_three_files :
    let w : Workspace := ⟨⟨[(["a.css"], .file (.text ".a {}\n.b, .a {}")),
      (["b.css"], .file (.text ".c \x7b")), (["p.html"], .file (.text "<p class=b>"))]⟩, []⟩
    let s : Settings := { root := some ⟨"/"⟩ }
    let files : List SourceFile := [⟨⟨"/a.css"⟩, .stylesheet⟩, ⟨⟨"/b.css"⟩, .stylesheet⟩,
      ⟨⟨"/p.html"⟩, .markup⟩]
    Collected w s ⟨"/"⟩ files ∧ (Pass.start {} (some ⟨0⟩) files).isCancelled = false ∧
      ∃ q, ReachesQuietly w s (.start {} (some ⟨0⟩) files) q ∧
        ∃ (e : q.Ending) (a : Analysis), e.result s = .ok (some a) ∧ a.Means w s ⟨"/"⟩ files := by
  intro w s files
  have hshort : ∀ f ∈ files, (acceptedText? w s f).all
      (fun text => decide (Text.byteSize text.toList < 2 ^ 32 - 1)) = true := by decide +kernel
  have hcollected : Collected w s ⟨"/"⟩ files := by
    refine ⟨rfl, by decide +kernel, by decide +kernel, fun f hf text htext => ?_⟩
    have hone := hshort f hf
    rw [htext, Option.all_some] at hone
    exact of_decide_eq_true hone
  have hstart : (Pass.start {} (some ⟨0⟩) files).isCancelled = false := rfl
  obtain ⟨-, ⟨q, hq, ⟨e⟩⟩, -⟩ := hcollected.ending_means hstart .refl
  obtain ⟨-, -, hending⟩ := hcollected.ending_means hstart hq
  exact ⟨hcollected, hstart, q, hq, e, hending e⟩

end StyleAudit.Project
