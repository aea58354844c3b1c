import Mathlib
import StyleAudit.Proofs.Files.Writing
import StyleAudit.Proofs.Project.Audit
import StyleAudit.Proofs.Sheet.Locating

/-! # Fixing stylesheets

A fix changes exactly what it reports. Edits refer to the text that was analysed, and the places that
are written to are files, so that no write disturbs what another path leads to. A stylesheet is
written exactly when one of its selectors is to be removed: it is accepted, so each of its rules is
closed, and a plan for a selector that it declares is not empty.

* **`commit`**, **`fixEach_eq`** — what becomes of the files when stylesheets are fixed one after
  the other.
* **`Audit.Fixed`**, **`exists_fixed_of_check`** — what an audit that returns has done. -/

namespace StyleAudit.Project

open Files

/-! ## One stylesheet -/

section Sheets

variable (a : Analysis) (s : Settings)

/-- The selectors that are removed from an accepted text. -/
def targetsIn (text : String) : SelectorSet := fixTargets a s (.ofText text)

/-- The edits that remove them. -/
def planFor (text : String) : List Edit := Sheet.planRemoval (targetsIn a s text) text

/-- Whether something is removed from a text. -/
def isFixed (text : String) : Bool := !(targetsIn a s text).toList.isEmpty

/-- What is told of a stylesheet that is fixed. -/
def fixOf (e : Path × String) : Fix where
  file := (a.root.within e.1).text
  removed := (targetsIn a s e.2).toList
  edits := (planFor a s e.2).length
  written := !s.dryRun

/-- The place of a stylesheet and the text that it gets there. -/
def writeOf? (w : Workspace) (e : Path × String) : Option (Location × String) :=
  match w.tree.resolve w.here e.1, Edit.applyAll (planFor a s e.2) e.2 with
  | .ok l, .ok text => some (l, text)
  | _, _ => none

/-- The files after some texts have been written, unless this is a dry run. -/
def commit (w : Workspace) (writes : List (Location × String)) : Workspace :=
  if s.dryRun then w else { w with tree := w.tree.rewrite writes }

variable {a s} {w : Workspace} {e : Path × String} {text : String}

/-- A selector is removed when it is declared, unused and to be removed. -/
theorem mem_targetsIn {x : String} : x ∈ targetsIn a s text ↔
    x ∈ (Sheet.Outline.ofText text).declared ∧ x ∈ a.unused ∧ s.includesSelector x = true := by
  rw [targetsIn, fixTargets, SelectorSet.mem_filter, Bool.and_eq_true, decide_eq_true_iff]
  rfl

/-- Something is removed when there is a selector to remove. -/
theorem isFixed_iff : isFixed a s text = true ↔ ∃ x, x ∈ targetsIn a s text := by
  rw [isFixed, Bool.not_eq_true', List.isEmpty_eq_false_iff_exists_mem]
  rfl

/-- The plan for an accepted stylesheet that is fixed is not empty. -/
theorem planFor_ne_nil (haccepted : ∃ selectors, Sheet.declared? text = .ok selectors)
    (h : isFixed a s text = true) : planFor a s text ≠ [] := by
  obtain ⟨x, hx⟩ := isFixed_iff.1 h
  exact Sheet.planRemoval_ne_nil haccepted hx (mem_targetsIn.1 hx).1

/-- What is written for a stylesheet. -/
theorem writeOf?_eq_some_iff {l : Location} : writeOf? a s w e = some (l, text) ↔
    w.tree.resolve w.here e.1 = .ok l ∧ Edit.applyAll (planFor a s e.2) e.2 = .ok text := by
  rw [writeOf?]
  cases w.tree.resolve w.here e.1 with
  | error _ => simp
  | ok k => cases Edit.applyAll (planFor a s e.2) e.2 <;> simp

/-- Without anything to write, the files stay as they are. -/
theorem commit_nil : commit s w [] = w := by
  unfold commit
  split <;> rfl

/-- One text is written after the other. -/
theorem commit_commit (write : Location × String) (writes : List (Location × String)) :
    commit s (commit s w [write]) writes = commit s w (write :: writes) := by
  unfold commit
  split <;> rfl

/-- A stylesheet without anything to remove is left alone. -/
theorem fixSheet_of_not_isFixed (h : isFixed a s e.2 = false) :
    fixSheet a s w e.1 (.ofText e.2) = .ok (w, none) := by
  rw [isFixed, Bool.not_eq_false'] at h
  have htargets : (fixTargets a s (.ofText e.2)).toList.isEmpty = true := h
  rw [fixSheet]
  simp [htargets]

/-- **A stylesheet with something to remove** gets the text that the plan makes of its text, unless
the plan cannot be applied. -/
theorem fixSheet_of_isFixed (haccepted : ∃ selectors, Sheet.declared? e.2 = .ok selectors)
    (h : isFixed a s e.2 = true) {l : Location} {c : Content}
    (hplace : w.tree.resolve w.here e.1 = .ok l) (hfile : w.tree.get? l = some (.file c)) :
    fixSheet a s w e.1 (.ofText e.2) =
      match Edit.applyAll (planFor a s e.2) e.2 with
      | .error _ => .error (.edit e.1)
      | .ok text => .ok (commit s w [(l, text)], some (fixOf a s e)) := by
  have hplan : (planFor a s e.2).isEmpty = false :=
    List.isEmpty_eq_false_iff.2 (planFor_ne_nil haccepted h)
  rw [isFixed, Bool.not_eq_true'] at h
  have hsome : ((targetsIn a s e.2).toList.isEmpty || (planFor a s e.2).isEmpty) = false := by
    rw [h, hplan]
    rfl
  have hwrite (text : String) : w.tree.write? w.here e.1 text =
      some (w.tree.put l (.file (.text text))) := FileTree.write?_eq_some hplace hfile
  unfold fixSheet
  refine (if_neg (Bool.eq_false_iff.1 hsome)).trans ?_
  show (match Edit.applyAll (planFor a s e.2) e.2 with
    | .error _ => _
    | .ok text => _) = _
  -- a text that is made is written, or only counted
  cases Edit.applyAll (planFor a s e.2) e.2 with
  | error _ => rfl
  | ok text =>
      simp only [hwrite]
      unfold commit
      by_cases hdry : s.dryRun = true
      · rw [if_pos hdry, if_pos hdry]
        rfl
      · rw [if_neg hdry, if_neg hdry]
        rfl

/-! ## One stylesheet after the other -/

variable {sheets : List (Path × String)}

/-- The stylesheets of which something is removed. -/
def fixedSheets (a : Analysis) (s : Settings) (sheets : List (Path × String)) :
    List (Path × String) := sheets.filter fun e => isFixed a s e.2

/-- A stylesheet of which nothing is removed is passed over. -/
theorem fixedSheets_cons_of_not_isFixed (h : isFixed a s e.2 = false) :
    fixedSheets a s (e :: sheets) = fixedSheets a s sheets :=
  List.filter_cons_of_neg (by simp [h])

/-- A stylesheet of which something is removed comes first. -/
theorem fixedSheets_cons_of_isFixed (h : isFixed a s e.2 = true) :
    fixedSheets a s (e :: sheets) = e :: fixedSheets a s sheets :=
  List.filter_cons_of_pos h

/-- Stylesheets that can be fixed: they are accepted, and their paths lead to files. -/
def Ready (w : Workspace) (sheets : List (Path × String)) : Prop :=
  ∀ e ∈ sheets, (∃ selectors, Sheet.declared? e.2 = .ok selectors) ∧
    ∃ l c, w.tree.resolve w.here e.1 = .ok l ∧ w.tree.get? l = some (.file c)

/-- The stylesheets after the first one can be fixed, too. -/
theorem Ready.tail (h : Ready w (e :: sheets)) : Ready w sheets :=
  fun d hd => h d (List.mem_cons_of_mem _ hd)

/-- Writing to a file leaves the files where they are. -/
theorem Ready.commit (h : Ready w sheets) {l : Location} {c : Content}
    (hfile : w.tree.get? l = some (.file c)) : Ready (commit s w [(l, text)]) sheets := by
  unfold Project.commit
  split
  · exact h
  · intro e he
    obtain ⟨haccepted, k, b, hresolve, hk⟩ := h e he
    have hsame := (FileTree.alike_put hfile (.text text)).resolve_eq w.here e.1
    have hput := FileTree.get?_put (t := w.tree) (FileTree.ne_nil_of_get? hfile)
      (.file (.text text)) k
    by_cases hkl : k = l
    · exact ⟨haccepted, k, .text text, hsame.trans hresolve, hput.trans (if_pos hkl)⟩
    · exact ⟨haccepted, k, b, hsame.trans hresolve, (hput.trans (if_neg hkl)).trans hk⟩

/-- Writing to a file does not change what is to be written. -/
theorem writeOf?_commit {l : Location} {c : Content} (hfile : w.tree.get? l = some (.file c)) :
    writeOf? a s (commit s w [(l, text)]) = writeOf? a s w := by
  unfold commit
  split
  · rfl
  · funext e
    unfold writeOf?
    rw [← (FileTree.alike_put hfile (.text text)).resolve_eq]
    rfl

/-- A stylesheet of which nothing is removed is passed over. -/
theorem fixEach_cons_of_not_isFixed (h : isFixed a s e.2 = false) :
    fixEach a s w ((e :: sheets).map parsed) = fixEach a s w (sheets.map parsed) := by
  rw [List.map_cons, parsed, fixEach]
  simp only [fixSheet_of_not_isFixed h]
  rcases fixEach a s w (sheets.map parsed) with ⟨v, _ | fixes⟩
  · rfl
  · rfl

/-- A stylesheet of which something is removed is told of first, and the others are fixed after what
was written to it. -/
theorem fixEach_cons_of_isFixed (haccepted : ∃ selectors, Sheet.declared? e.2 = .ok selectors)
    (h : isFixed a s e.2 = true) {l : Location} {c : Content}
    (hplace : w.tree.resolve w.here e.1 = .ok l) (hfile : w.tree.get? l = some (.file c))
    (htext : Edit.applyAll (planFor a s e.2) e.2 = .ok text) :
    fixEach a s w ((e :: sheets).map parsed) =
      (fixEach a s (commit s w [(l, text)]) (sheets.map parsed)).map id
        (Except.map (fixOf a s e :: ·)) := by
  rw [List.map_cons, parsed, fixEach]
  simp only [fixSheet_of_isFixed haccepted h hplace hfile, htext]
  rcases fixEach a s (commit s w [(l, text)]) (sheets.map parsed) with ⟨v, _ | fixes⟩
  · rfl
  · rfl

/-- **When stylesheets are fixed**, each one that has something to remove is told of, and gets the
text that its plan makes of it. -/
theorem fixEach_eq (hready : Ready w sheets)
    (happlies : ∀ e ∈ fixedSheets a s sheets, ∃ text,
      Edit.applyAll (planFor a s e.2) e.2 = .ok text) :
    fixEach a s w (sheets.map parsed) =
      (commit s w ((fixedSheets a s sheets).filterMap (writeOf? a s w)),
        .ok ((fixedSheets a s sheets).map (fixOf a s))) := by
  induction sheets generalizing w with
  | nil => exact Prod.ext commit_nil.symm rfl
  | cons e sheets ih =>
      cases hfixed : isFixed a s e.2 with
      | false =>
          rw [fixedSheets_cons_of_not_isFixed hfixed] at happlies ⊢
          rw [fixEach_cons_of_not_isFixed hfixed, ih hready.tail happlies]
      | true =>
          rw [fixedSheets_cons_of_isFixed hfixed] at happlies ⊢
          obtain ⟨text, htext⟩ := happlies e List.mem_cons_self
          obtain ⟨haccepted, l, c, hplace, hfile⟩ := hready e List.mem_cons_self
          have hwrite : writeOf? a s w e = some (l, text) := writeOf?_eq_some_iff.2 ⟨hplace, htext⟩
          rw [fixEach_cons_of_isFixed haccepted hfixed hplace hfile htext,
            ih (hready.tail.commit hfile) fun d hd => happlies d (List.mem_cons_of_mem _ hd),
            writeOf?_commit hfile, List.filterMap_cons_some hwrite, commit_commit]
          rfl

/-- When stylesheets could be fixed, all plans could be applied. -/
theorem applies_of_fixEach {w' : Workspace} {fixes : List Fix} (hready : Ready w sheets)
    (h : fixEach a s w (sheets.map parsed) = (w', .ok fixes)) :
    ∀ e ∈ fixedSheets a s sheets, ∃ text, Edit.applyAll (planFor a s e.2) e.2 = .ok text := by
  induction sheets generalizing w w' fixes with
  | nil => exact fun e he => absurd he List.not_mem_nil
  | cons e sheets ih =>
      cases hfixed : isFixed a s e.2 with
      | false =>
          rw [fixEach_cons_of_not_isFixed hfixed] at h
          rw [fixedSheets_cons_of_not_isFixed hfixed]
          exact ih hready.tail h
      | true =>
          obtain ⟨haccepted, l, c, hplace, hfile⟩ := hready e List.mem_cons_self
          cases htext : Edit.applyAll (planFor a s e.2) e.2 with
          | error _ =>
              rw [List.map_cons, parsed, fixEach] at h
              simp only [fixSheet_of_isFixed haccepted hfixed hplace hfile, htext] at h
              cases h
          | ok text =>
              rw [fixEach_cons_of_isFixed haccepted hfixed hplace hfile htext] at h
              rw [fixedSheets_cons_of_isFixed hfixed]
              intro d hd
              rcases List.mem_cons.1 hd with rfl | hd
              · exact ⟨text, htext⟩
              · -- the others were fixed, too
                rcases hrest : fixEach a s (commit s w [(l, text)]) (sheets.map parsed) with
                  ⟨v, _ | rest⟩
                · rw [hrest] at h
                  cases (Prod.mk.inj h).2
                · exact ih (hready.tail.commit hfile) hrest d hd

end Sheets

/-! ## Audits -/

namespace Audit

variable {s : Settings} {w w' : Workspace} {r : CheckResult}

section

variable (p : Audit s w)

/-- The stylesheets of which an audit removes something. -/
def fixed : List (Path × String) := fixedSheets p.analysis s p.sheets

/-- What is told of them. -/
def fixes : List Fix := p.fixed.map (fixOf p.analysis s)

/-- What is written to them. -/
def writes : List (Location × String) := p.fixed.filterMap (writeOf? p.analysis s w)

/-- All plans can be applied. -/
def Applies : Prop :=
  ∀ e ∈ p.fixed, ∃ text, Edit.applyAll (planFor p.analysis s e.2) e.2 = .ok text

/-- The files after an audit. -/
def after : Workspace := if s.fix then commit s w p.writes else w

/-- The result of an audit. -/
def result : CheckResult :=
  if s.fix then p.analysis.result (remaining s p.analysis.findings p.fixes) p.fixes
  else p.analysis.result p.analysis.findings []

end

variable {p : Audit s w}

/-- The stylesheets of an audit can be fixed. -/
theorem ready (p : Audit s w) : Ready w p.sheets := by
  intro e he
  obtain ⟨l, hl, hfile⟩ := FileTree.read?_eq_some_iff.1 (p.accepted.read?_eq he)
  exact ⟨p.accepted.exists_declared? he, l, _, hl, hfile⟩

/-- The root and the scope do not matter to how stylesheets are fixed. -/
theorem fixEach_prepared (p : Audit s w) (v : Workspace) (es : List (Path × ParsedSheet)) :
    fixEach p.analysis p.prepared v es = fixEach p.analysis s v es := by
  obtain ⟨root, sheet, hprepared⟩ := Settings.exists_prepared p.prepare_eq
  rw [hprepared]
  induction es generalizing v with
  | nil => rfl
  | cons e es ih =>
      rw [fixEach, fixEach]
      simp only [ih]
      rfl

/-- What an audit returns when a fix is asked for. -/
theorem check_eq_of_fix (p : Audit s w) (hfix : s.fix = true) :
    check s w = match fixEach p.analysis s w (p.sheets.map parsed) with
      | (v, .ok fixes) =>
          (v, .ok (p.analysis.result (remaining s p.analysis.findings fixes) fixes))
      | (v, .error e) => (v, .error e) := by
  obtain ⟨root, sheet, hprepared⟩ := Settings.exists_prepared p.prepare_eq
  have hfix' : p.prepared.fix = true := by rw [hprepared, hfix]
  have hremaining : remaining p.prepared = remaining s := by
    rw [hprepared]
    rfl
  have hsheets : fixSheets p.analysis p.prepared w =
      fixEach p.analysis s w (p.sheets.map parsed) := by
    rw [fixSheets, p.sheets_eq, p.fixEach_prepared]
  rw [check, p.prepare_eq]
  rcases heach : fixEach p.analysis s w (p.sheets.map parsed) with ⟨v, _ | fixes⟩
  · simp only [p.analyzeProject_eq, hfix', if_true, hsheets, heach]
  · simp only [p.analyzeProject_eq, hfix', if_true, hsheets, heach, hremaining]

/-- **What an audit returns**, if all plans can be applied or none is needed. -/
theorem check_eq (p : Audit s w) (happlies : s.fix = true → p.Applies) :
    check s w = (p.after, .ok p.result) := by
  cases hfix : s.fix with
  | false =>
      obtain ⟨root, sheet, hprepared⟩ := Settings.exists_prepared p.prepare_eq
      have hfix' : p.prepared.fix = false := by rw [hprepared, hfix]
      rw [check, p.prepare_eq]
      simp [p.analyzeProject_eq, hfix, hfix', after, result]
  | true =>
      rw [p.check_eq_of_fix hfix, fixEach_eq p.ready (happlies hfix), after, result, hfix]
      rfl

/-- An audit that returns a fix could apply all plans. -/
theorem applies_of_check (p : Audit s w) (h : check s w = (w', .ok r)) (hfix : s.fix = true) :
    p.Applies := by
  rw [p.check_eq_of_fix hfix] at h
  rcases heach : fixEach p.analysis s w (p.sheets.map parsed) with ⟨v, _ | fixes⟩
  · rw [heach] at h
    cases h
  · exact applies_of_fixEach p.ready heach

/-- The same audit as a dry run. -/
def dry (p : Audit s w) : Audit { s with dryRun := true } w where
  prepared := { p.prepared with dryRun := true }
  root := p.root
  files := p.files
  analysis := p.analysis
  sheets := p.sheets
  prepare_eq := by
    have h := p.prepare_eq
    unfold Settings.prepare at h ⊢
    split at h
    · cases h
    · rename_i root hroot
      rw [← Except.ok.inj h]
      simp only [hroot]
  root_eq := p.root_eq
  files_eq := p.files_eq
  analyze_eq := p.analyze_eq
  accepted := ⟨p.accepted.sound, p.accepted.complete, p.accepted.increasing⟩
  sheets_eq := p.sheets_eq

/-! ## What is written -/

/-- What an audit writes, and where. -/
theorem mem_writes_iff {l : Location} {text : String} : (l, text) ∈ p.writes ↔ ∃ e ∈ p.fixed,
    w.tree.resolve w.here e.1 = .ok l ∧
      Edit.applyAll (planFor p.analysis s e.2) e.2 = .ok text := by
  simp only [writes, List.mem_filterMap, writeOf?_eq_some_iff]

/-- A stylesheet that is fixed is one of those that were analysed. -/
theorem mem_sheets_of_mem_fixed {e : Path × String} (he : e ∈ p.fixed) : e ∈ p.sheets :=
  (List.mem_filter.1 he).1

/-- Where an audit writes, the text that was analysed stands. -/
theorem get?_of_mem_fixed {e : Path × String} (he : e ∈ p.fixed) {l : Location}
    (hl : w.tree.resolve w.here e.1 = .ok l) : w.tree.get? l = some (.file (.text e.2)) := by
  obtain ⟨k, hk, hfile⟩ :=
    FileTree.read?_eq_some_iff.1 (p.accepted.read?_eq (mem_sheets_of_mem_fixed he))
  rw [hl] at hk
  obtain rfl := Except.ok.inj hk
  exact hfile

/-- An audit writes to files only. -/
theorem hasFiles_writes (p : Audit s w) : w.tree.HasFiles p.writes := by
  rintro ⟨l, text⟩ hw
  obtain ⟨e, he, hl, -⟩ := mem_writes_iff.1 hw
  exact ⟨_, get?_of_mem_fixed he hl⟩

/-- To one place an audit writes one text, since all paths that lead there lead to the same text. -/
theorem eq_of_mem_writes {l : Location} {text text' : String} (h : (l, text) ∈ p.writes)
    (h' : (l, text') ∈ p.writes) : text = text' := by
  obtain ⟨e, he, hl, htext⟩ := mem_writes_iff.1 h
  obtain ⟨d, hd, hl', htext'⟩ := mem_writes_iff.1 h'
  have hsame : e.2 = d.2 := by
    have hfile := get?_of_mem_fixed he hl
    rw [get?_of_mem_fixed hd hl'] at hfile
    simpa using hfile.symm
  rw [hsame, htext'] at htext
  exact (Except.ok.inj htext).symm

/-- A stylesheet that is fixed leads to the text that its plan makes. -/
theorem read?_rewrite {e : Path × String} (he : e ∈ p.fixed) {text : String}
    (htext : Edit.applyAll (planFor p.analysis s e.2) e.2 = .ok text) :
    (w.tree.rewrite p.writes).read? w.here e.1 = some text := by
  obtain ⟨-, l, -, hl, -⟩ := p.ready e (mem_sheets_of_mem_fixed he)
  have hw : (l, text) ∈ p.writes := mem_writes_iff.2 ⟨e, he, hl, htext⟩
  refine FileTree.read?_eq_some_iff.2 ⟨l, ?_, ?_⟩
  · rw [p.hasFiles_writes.alike_rewrite.resolve_eq, hl]
  · refine p.hasFiles_writes.get?_rewrite_of_mem hw ?_
    rintro ⟨k, text'⟩ hw' rfl
    exact eq_of_mem_writes hw' hw

/-! ## What is told -/

/-- A stylesheet that is fixed is edited. -/
theorem edits_pos_of_mem_fixes {fix : Fix} (h : fix ∈ p.fixes) : 0 < fix.edits := by
  obtain ⟨e, he, rfl⟩ := List.mem_map.1 h
  obtain ⟨hmem, hfixed⟩ := List.mem_filter.1 he
  exact List.length_pos_iff.2 (planFor_ne_nil (p.accepted.exists_declared? hmem) hfixed)

/-- A finding is an entry of an accepted stylesheet with an unused text. -/
theorem exists_of_mem_findings {f : Finding} (h : f ∈ p.analysis.findings) :
    ∃ e ∈ p.sheets, f.file = (p.root.within e.1).text ∧
      f.selector ∈ (Sheet.Outline.ofText e.2).declared ∧ f.selector ∈ p.analysis.unused := by
  obtain ⟨⟨path, sheet⟩, hmem, hf⟩ := List.mem_flatMap.1 (List.mem_mergeSort.1 h)
  have hsorted : (path, sheet) ∈
      p.analysis.sheets.mergeSort fun x y => partsLe x.1.parts y.1.parts :=
    List.mem_mergeSort.2 hmem
  rw [p.sheets_eq] at hsorted
  obtain ⟨e, he, hparsed⟩ := List.mem_map.1 hsorted
  obtain ⟨rfl, rfl⟩ := Prod.mk.inj hparsed
  obtain ⟨entry, hentry, rfl⟩ := List.mem_map.1 hf
  rw [ParsedSheet.ofText, Sheet.occurrences_eq_filter, List.mem_filter, decide_eq_true_iff] at hentry
  refine ⟨e, he, by rw [← p.analysis_root], ?_, hentry.2⟩
  rw [Sheet.Outline.declared, SelectorSet.mem_ofList]
  exact List.mem_map_of_mem hentry.1

/-- **A finding whose selector is to be removed** is taken away. -/
theorem covers_of_mem_findings {f : Finding} (hincludes : s.includesSelector f.selector = true)
    (h : f ∈ p.analysis.findings) : ∃ fix ∈ p.fixes, fix.covers f = true := by
  obtain ⟨e, he, hfile, hdeclared, hunused⟩ := exists_of_mem_findings h
  have htarget : f.selector ∈ targetsIn p.analysis s e.2 :=
    mem_targetsIn.2 ⟨hdeclared, hunused, hincludes⟩
  have hfixed : e ∈ p.fixed := List.mem_filter.2 ⟨he, isFixed_iff.2 ⟨_, htarget⟩⟩
  refine ⟨_, List.mem_map_of_mem hfixed, ?_⟩
  rw [Fix.covers, Bool.and_eq_true, beq_iff_eq, List.contains_iff_mem]
  refine ⟨?_, htarget⟩
  rw [hfile, ← p.analysis_root]
  rfl

/-! ## What an audit has done -/

/-- What an audit that returns has done. -/
structure Fixed (p : Audit s w) (w' : Workspace) (r : CheckResult) : Prop where
  /-- Without a fix, or if it is only planned, nothing changes. -/
  unchanged : s.fix = false ∨ s.dryRun = true → w' = w
  here_eq : w'.here = w.here
  /-- Only files that are listed change. -/
  changed : ∀ l, w'.tree.get? l ≠ w.tree.get? l → ∃ e ∈ p.fixed,
    w.tree.resolve w.here e.1 = .ok l ∧ fixOf p.analysis s e ∈ r.fixes
  /-- What is listed are the stylesheets with something to remove. -/
  fixes_eq : r.fixes = if s.fix then p.fixes else []
  edits_pos : ∀ fix ∈ r.fixes, 0 < fix.edits
  /-- Each of them gets what the plan makes of the text that was analysed. -/
  rewritten : s.fix = true → s.dryRun = false → ∀ e ∈ p.fixed,
    w.tree.read? w.here e.1 = some e.2 ∧ ∃ text,
      Edit.applyAll (planFor p.analysis s e.2) e.2 = .ok text ∧
      w'.tree.read? w'.here e.1 = some text
  /-- Nothing is left when everything unused is removed. -/
  findings_eq : s.fix = true → s.dryRun = false → s.selectors = [] → r.findings = []
  /-- A dry run tells of the same fixes. -/
  dryRun : ∃ r', check { s with dryRun := true } w = (w, .ok r') ∧
    r'.fixes = r.fixes.map fun fix => { fix with written := false }

/-- Without a fix, or if it is only planned, nothing is written. -/
theorem after_eq_self (p : Audit s w) (h : s.fix = false ∨ s.dryRun = true) : p.after = w := by
  unfold after commit
  rcases h with hfix | hdry
  · simp [hfix]
  · simp [hdry]

/-- A fix writes what its plans make. -/
theorem after_eq (p : Audit s w) (hfix : s.fix = true) (hdry : s.dryRun = false) :
    p.after = { w with tree := w.tree.rewrite p.writes } := by
  rw [after, if_pos hfix, commit, hdry]
  rfl

/-- The fixes that are listed. -/
theorem result_fixes (p : Audit s w) : p.result.fixes = if s.fix then p.fixes else [] := by
  rw [result]
  cases s.fix <;> rfl

/-- What changes is the place of a stylesheet that is listed. -/
theorem exists_of_get?_after_ne {l : Location} (hl : p.after.tree.get? l ≠ w.tree.get? l) :
    ∃ e ∈ p.fixed, w.tree.resolve w.here e.1 = .ok l ∧ fixOf p.analysis s e ∈ p.result.fixes := by
  by_cases hnone : s.fix = false ∨ s.dryRun = true
  · rw [p.after_eq_self hnone] at hl
    exact absurd rfl hl
  · rw [not_or, Bool.not_eq_false, Bool.not_eq_true] at hnone
    rw [p.after_eq hnone.1 hnone.2] at hl
    have hmem : l ∈ p.writes.map Prod.fst :=
      by_contra fun hnot => hl (p.hasFiles_writes.get?_rewrite_of_not_mem hnot)
    obtain ⟨⟨k, text⟩, hw, rfl⟩ := List.mem_map.1 hmem
    obtain ⟨e, he, hplace, -⟩ := mem_writes_iff.1 hw
    refine ⟨e, he, hplace, ?_⟩
    rw [result_fixes, if_pos hnone.1]
    exact List.mem_map_of_mem he

/-- A fix of everything unused leaves no finding: each is about a selector that some fix removes. -/
theorem result_findings (p : Audit s w) (hfix : s.fix = true) (hdry : s.dryRun = false)
    (hall : s.selectors = []) : p.result.findings = [] := by
  rw [result, if_pos hfix]
  show remaining s p.analysis.findings p.fixes = []
  rw [remaining, hdry, if_neg Bool.false_ne_true, List.filter_eq_nil_iff]
  intro f hf
  have hincludes : s.includesSelector f.selector = true := by
    simp [Settings.includesSelector, hall]
  obtain ⟨fix, hmem, hcovers⟩ := covers_of_mem_findings hincludes hf
  have hany : p.fixes.any (·.covers f) = true := List.any_eq_true.2 ⟨fix, hmem, hcovers⟩
  simp [hany]

/-- A dry run lists the same fixes, as not written. -/
theorem result_fixes_dry (p : Audit s w) :
    p.dry.result.fixes = p.result.fixes.map fun fix => { fix with written := false } := by
  rw [result_fixes, result_fixes]
  by_cases hfix : s.fix = true
  · rw [if_pos hfix, if_pos hfix, fixes, fixes, List.map_map]
    rfl
  · rw [if_neg hfix, if_neg hfix]
    rfl

/-- **An audit whose plans can be applied** changes what it reports. -/
theorem fixed_after (p : Audit s w) (happlies : s.fix = true → p.Applies) :
    p.Fixed p.after p.result := by
  constructor
  case unchanged => exact p.after_eq_self
  case here_eq =>
    unfold after commit
    split
    · split <;> rfl
    · rfl
  case changed => exact fun _ hl => exists_of_get?_after_ne hl
  case fixes_eq => exact p.result_fixes
  case edits_pos =>
    intro fix hfix
    rw [result_fixes] at hfix
    split at hfix
    · exact edits_pos_of_mem_fixes hfix
    · cases hfix
  case rewritten =>
    intro hfix hdry e he
    obtain ⟨text, htext⟩ := happlies hfix e he
    refine ⟨p.accepted.read?_eq (mem_sheets_of_mem_fixed he), text, htext, ?_⟩
    rw [p.after_eq hfix hdry]
    exact read?_rewrite he htext
  case findings_eq => exact p.result_findings
  case dryRun =>
    refine ⟨p.dry.result, ?_, p.result_fixes_dry⟩
    rw [p.dry.check_eq happlies, p.dry.after_eq_self (.inr rfl)]

end Audit

/-- **A fix changes exactly what it reports.** An audit that returns has gone through an analysis.
It changes files only for a fix that is not a dry run, and only those that it lists; it lists the
stylesheets of which something is removed, and each of them gets what its plan makes of the text
that was analysed. -/
theorem exists_fixed_of_check {s : Settings} {w w' : Workspace} {r : CheckResult}
    (h : check s w = (w', .ok r)) : ∃ p : Audit s w, p.Fixed w' r := by
  obtain ⟨p⟩ := nonempty_audit_of_check h
  have happlies : s.fix = true → p.Applies := p.applies_of_check h
  rw [p.check_eq happlies] at h
  obtain ⟨rfl, hr⟩ := Prod.mk.inj h
  obtain rfl := Except.ok.inj hr
  exact ⟨p, p.fixed_after happlies⟩

/-- The rule of an unused class is deleted; the selector of the other rule is no single one and is
never unused. -/
theorem exists_fixed_of_check_one_file :
    let w : Workspace := ⟨⟨[(["a.css"], .file (.text ".a {}\na:b {}"))]⟩, []⟩
    let s : Settings := { root := some ⟨"/"⟩, fix := true }
    ∃ w' r, check s w = (w', .ok r) ∧ w'.tree.textAt? ["a.css"] = some "a:b {}" ∧
      r.fixes = [⟨"a.css", [".a"], 1, true⟩] ∧ r.findings = [] ∧ ∃ p : Audit s w, p.Fixed w' r := by
  intro w s
  let r : CheckResult := ⟨[], [], [⟨"a.css", [".a"], 1, true⟩], 1, 1⟩
  have h : check s w = ((check s w).1, .ok r) := Prod.ext rfl (by decide +kernel)
  exact ⟨_, r, h, by decide +kernel, rfl, rfl, exists_fixed_of_check h⟩

end StyleAudit.Project
