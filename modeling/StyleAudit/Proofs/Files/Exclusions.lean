import Mathlib
import StyleAudit.Proofs.Files.Below
import StyleAudit.Proofs.Files.PathOrder
import StyleAudit.Proofs.Ignore.Covering

/-! # Exclusions are respected

Whatever ignore files a tree has and whatever they hide or bring back, an exclusion only takes files
away: what one of its rules is about is hidden, and no other rule brings it back. So nothing is
collected below a directory that is always excluded, and a further exclusion leaves some of the
files that were collected without it.

* **`exclusions?_append_eq_ok`** — the rules of exclusions and of others after them.
* **`isShown_of_subset`** — what more rules show, fewer rules show.
* **`filesAt_subset`** — fewer rules leave more files.
* **`Found`** — where a file that is collected stands.
* **`Excluding`**, **`excluding_of_collect`** — how exclusions are respected. -/

namespace StyleAudit.Files

open Ignore

variable {t : FileTree} {here place names : Location} {root : Path} {globs : List String}
  {rules rules' : List Rule} {f : SourceFile} {files : List SourceFile}

/-! ## Exclusions -/

/-- The rules of an exclusion and of others. -/
theorem exclusions?_cons_eq_ok {g : String} {gs : List String} : exclusions? (g :: gs) = .ok rules ↔
    ∃ r rs, exclusion? g = .ok r ∧ exclusions? gs = .ok rs ∧ rules = r.toList ++ rs := by
  rw [exclusions?]
  cases exclusion? g with
  | error e => simp
  | ok r =>
      cases exclusions? gs with
      | error e => simp
      | ok rs => simp [eq_comm]

/-- **The rules of exclusions** and of others after them. -/
theorem exclusions?_append_eq_ok {gs hs : List String} : exclusions? (gs ++ hs) = .ok rules ↔
    ∃ rs ss, exclusions? gs = .ok rs ∧ exclusions? hs = .ok ss ∧ rules = rs ++ ss := by
  induction gs generalizing rules with
  | nil => simp [exclusions?]
  | cons g gs ih =>
      simp only [List.cons_append, exclusions?_cons_eq_ok, ih]
      constructor
      · rintro ⟨r, -, hr, ⟨rs, ss, hrs, hss, rfl⟩, rfl⟩
        exact ⟨_, ss, ⟨r, rs, hr, hrs, rfl⟩, hss, (List.append_assoc _ _ _).symm⟩
      · rintro ⟨-, ss, ⟨r, rs, hr, hrs, rfl⟩, hss, rfl⟩
        exact ⟨r, _, hr, ⟨rs, ss, hrs, hss, rfl⟩, List.append_assoc _ _ _⟩

/-- What is always excluded is all that lies below the directories of one name. -/
theorem exclusions?_standard : exclusions? standardExclusions =
    .ok [⟨⟨belowPattern "node_modules".toList⟩, true, false⟩] := rfl

/-! ## What is hidden -/

/-- **What fewer rules hide, more rules hide.** -/
theorem hides_of_subset {isDirectory : Bool} (h : rules ⊆ rules')
    (hhides : hides t here rules place names isDirectory = true) :
    hides t here rules' place names isDirectory = true := by
  rw [hides, Bool.or_eq_true, bne_iff_ne, judge_ne_silent_iff] at hhides ⊢
  refine hhides.imp_left ?_
  rintro ⟨r, hr, hcovers⟩
  exact ⟨r, h hr, hcovers⟩

/-- **What more rules show, fewer rules show.** -/
theorem isShown_of_subset (h : rules ⊆ rules')
    (hshown : isShown t here rules' place names = true) :
    isShown t here rules place names = true := by
  simp only [isShown, Bool.and_eq_true, List.all_eq_true, Bool.not_eq_true'] at hshown ⊢
  have hmore : ∀ {l : Location} {isDirectory : Bool},
      hides t here rules' place l isDirectory = false →
      hides t here rules place l isDirectory = false :=
    fun hl => Bool.eq_false_iff.2 fun hhides => Bool.eq_false_iff.1 hl (hides_of_subset h hhides)
  exact ⟨hmore hshown.1, fun d hd => hmore (hshown.2 d hd)⟩

/-- **A rule that is about a file hides it.** -/
theorem not_covers_of_isShown (hshown : isShown t here rules place names = true) {r : Rule}
    (hr : r ∈ rules) : r.covers (pathBytes names) false = false := by
  rw [← Bool.not_eq_true]
  intro hcovers
  have hhides : hides t here rules place names false = true := by
    rw [hides, Bool.or_eq_true, bne_iff_ne, judge_ne_silent_iff]
    exact .inl ⟨r, hr, hcovers⟩
  simp [isShown, hhides] at hshown

/-- **Nothing is shown below a directory that is always excluded.** -/
theorem not_mem_dropLast_of_isShown (hslash : ∀ n ∈ names, '/' ∉ n.toList)
    (hrules : exclusions? (standardExclusions ++ globs) = .ok rules)
    (hshown : isShown t here rules place names = true) : "node_modules" ∉ names.dropLast := by
  intro hmem
  obtain ⟨rs, ss, hstandard, -, rfl⟩ := exclusions?_append_eq_ok.1 hrules
  obtain rfl := Except.ok.inj (exclusions?_standard.symm.trans hstandard)
  have hcovers := not_covers_of_isShown hshown (List.mem_append_left _ (List.mem_singleton_self _))
  rw [Rule.covers, accepts_belowPattern hmem hslash] at hcovers
  cases hcovers

/-! ## What is collected -/

/-- **Fewer rules leave more files.** -/
theorem filesAt_subset (h : rules ⊆ rules') :
    filesAt t here rules' root place ⊆ filesAt t here rules root place := by
  intro f hf
  rw [filesAt] at hf ⊢
  split
  · rename_i hdirectory
    rw [if_pos hdirectory] at hf
    obtain ⟨names, hnames, hf⟩ := List.mem_filterMap.1 hf
    obtain ⟨hnames, hshown⟩ := List.mem_filter.1 hnames
    exact List.mem_filterMap.2 ⟨names, List.mem_filter.2 ⟨hnames, isShown_of_subset h hshown⟩, hf⟩
  · rename_i hdirectory
    rwa [if_neg hdirectory] at hf

/-- Where a file that is collected stands: `names` lead to it from the place of the root. -/
structure Found (t : FileTree) (here : Location) (root : Path) (place names : Location)
    (f : SourceFile) : Prop where
  parts_eq : f.path.parts = root.parts ++ names.map .name
  resolve_eq : t.resolve here f.path = .ok (place ++ names)
  exists_file : ∃ c, t.file? (place ++ names) = some c
  /-- It does not lie below a directory that is always excluded. -/
  not_mem : "node_modules" ∉ names.dropLast

/-- A place at which something but no directory stands has a file. -/
theorem exists_file?_of_has {l : Location} (hhas : t.has l = true)
    (hdirectory : t.isDirectory l = false) : ∃ c, t.file? l = some c := by
  obtain ⟨e, he⟩ := Option.isSome_iff_exists.1 hhas
  cases e with
  | file c => exact ⟨c, by rw [FileTree.file?, he]⟩
  | directory => simp [FileTree.isDirectory, he] at hdirectory

/-- **Every file that is collected stands where its path says**, and is not always excluded. -/
theorem exists_found (h : t.WellFormed) (hplace : t.resolve here root = .ok place)
    (hrules : exclusions? (standardExclusions ++ globs) = .ok rules)
    (hf : f ∈ filesAt t here rules root place) : ∃ names, Found t here root place names f := by
  rw [filesAt] at hf
  split at hf
  · obtain ⟨names, hnames, hpath⟩ := List.mem_filterMap.1 hf
    obtain ⟨hnames, hshown⟩ := List.mem_filter.1 hnames
    obtain ⟨hne, c, he⟩ := FileTree.mem_filesIn.1 hnames
    have hsteps : ∀ n ∈ names, IsStepName n := fun n hn => h.isStepName_of_mem_filesIn hnames hn
    have hroot := FileTree.text_ne_empty_of_resolve hplace
    refine ⟨names, ?_, ?_, ⟨c, h.file?_eq_some (by simp [hne]) he⟩, ?_⟩
    · rw [(SourceFile.ofPath?_eq_some hpath).1, Path.parts_join_names hroot hne hsteps]
    · rw [(SourceFile.ofPath?_eq_some hpath).1, h.resolve_join hplace hnames]
    · exact not_mem_dropLast_of_isShown (fun n hn => (hsteps n hn).slash_not_mem) hrules hshown
  · -- the root is a file
    rename_i hdirectory
    have hpath := (SourceFile.ofPath?_eq_some (Option.mem_toList.1 hf)).1
    refine ⟨[], ?_, ?_, ?_, by simp⟩
    · rw [hpath, List.map_nil, List.append_nil]
    · rw [hpath, hplace, List.append_nil]
    · rw [List.append_nil]
      exact exists_file?_of_has (h.has_of_resolve hplace) (by simpa using hdirectory)

/-- **Files that are collected have different parts.** -/
theorem pairwise_filesAt (h : t.WellFormed) (hplace : t.resolve here root = .ok place) :
    (filesAt t here rules root place).Pairwise fun f g => f.path.parts ≠ g.path.parts := by
  rw [filesAt]
  split
  · have hroot := FileTree.text_ne_empty_of_resolve hplace
    have hpath : ∀ {names : Location} {f : SourceFile},
        names ∈ (t.filesIn place).filter (isShown t here rules place) →
        SourceFile.ofPath? (root.join ⟨"/".intercalate names⟩) = some f →
        f.path.parts = root.parts ++ names.map .name := by
      intro names f hmem hf
      have hnames := (List.mem_filter.1 hmem).1
      rw [(SourceFile.ofPath?_eq_some hf).1]
      exact Path.parts_join_names hroot (FileTree.mem_filesIn.1 hnames).1
        fun n hn => h.isStepName_of_mem_filesIn hnames hn
    -- different names lead to different parts
    have hapart := (h.distinct.nodup_filesIn place).filter (isShown t here rules place)
    refine List.pairwise_filterMap.2 (hapart.imp_of_mem fun {a b} ha hb hab f hf g hg heq => hab ?_)
    rw [hpath ha hf, hpath hb hg, List.append_cancel_left_eq] at heq
    exact List.map_injective_iff.2 (fun m n hmn => Part.name.inj hmn) heq
  · cases SourceFile.ofPath? root <;> simp

/-- **What is collected is sorted**, without ties. -/
theorem pairwise_collect (h : t.WellFormed) (hcollect : collect t here root globs = .ok files) :
    files.Pairwise fun f g => partsKey f.path.parts < partsKey g.path.parts := by
  obtain ⟨rules, place, -, hplace, rfl⟩ := collect_eq_ok.1 hcollect
  simp only [partsLe_eq]
  exact pairwise_lt_mergeSort
    ((pairwise_filesAt h hplace).imp fun hne hkeys => hne (partsKey_injective hkeys))

/-- How exclusions are respected in what is collected. -/
structure Excluding (t : FileTree) (here : Location) (root : Path) (globs : List String)
    (files : List SourceFile) : Prop where
  /-- The files are sorted by the parts of their paths, without ties. -/
  sorted : files.Pairwise fun f g => partsKey f.path.parts < partsKey g.path.parts
  kind_eq : ∀ f ∈ files, FileKind.ofPath? f.path = some f.kind
  /-- Each of them is there, below the root, and in no directory that is always excluded. -/
  found : ∃ place, t.resolve here root = .ok place ∧
    ∀ f ∈ files, ∃ names, Found t here root place names f
  /-- A further exclusion only takes files away. -/
  sublist : ∀ glob files', collect t here root (globs ++ [glob]) = .ok files' →
    files'.Sublist files

/-- **Exclusions are respected in every tree**, whatever its ignore files hide or bring back. The
files that are collected are sorted and exist, none of them lies below a directory that is always
excluded, and a further exclusion only takes files away. -/
theorem excluding_of_collect (h : t.WellFormed)
    (hcollect : collect t here root globs = .ok files) :
    Excluding t here root globs files := by
  have hsorted := pairwise_collect h hcollect
  refine ⟨hsorted, fun f hf => kind_of_mem_collect hcollect hf, ?_, fun glob files' hmore => ?_⟩
  · obtain ⟨rules, place, hrules, hplace, rfl⟩ := collect_eq_ok.1 hcollect
    exact ⟨place, hplace, fun f hf => exists_found h hplace hrules (List.mem_mergeSort.1 hf)⟩
  · refine sublist_of_pairwise_lt hsorted (pairwise_collect h hmore) ?_
    obtain ⟨rules, place, hrules, hplace, rfl⟩ := collect_eq_ok.1 hcollect
    obtain ⟨rules', place', hrules', hplace', rfl⟩ := collect_eq_ok.1 hmore
    obtain rfl := Except.ok.inj (hplace.symm.trans hplace')
    -- the rules of the further exclusion come after the others
    rw [← List.append_assoc] at hrules'
    obtain ⟨rs, ss, hrs, -, rfl⟩ := exclusions?_append_eq_ok.1 hrules'
    obtain rfl := Except.ok.inj (hrules.symm.trans hrs)
    intro f hf
    rw [List.mem_mergeSort] at hf ⊢
    exact filesAt_subset (List.subset_append_left _ _) hf

/-- A repository that ignores stylesheets, but brings back those of one name, and the directories of
packages. -/
def restoringTree : FileTree where
  entries := [(["p"], .directory), (["p", ".git"], .directory),
    (["p", ".gitignore"], .file (.text "*.css\n!a.css\n!node_modules/\n")),
    (["p", "a.css"], .file (.text "")), (["p", "b.css"], .file (.text "")),
    (["p", "c.html"], .file (.text "")), (["p", "lib"], .directory),
    (["p", "lib", "node_modules"], .directory),
    (["p", "lib", "node_modules", "a.css"], .file (.text ""))]

/-- A stylesheet is ignored, another one is brought back, and a third one is always excluded all the
same. A further exclusion takes a page away. -/
theorem excluding_of_collect_restored :
    let files : List SourceFile := [⟨⟨"p/a.css"⟩, .stylesheet⟩, ⟨⟨"p/c.html"⟩, .markup⟩]
    let fewer : List SourceFile := [⟨⟨"p/a.css"⟩, .stylesheet⟩]
    restoringTree.WellFormed ∧ collect restoringTree [] ⟨"p"⟩ [] = .ok files ∧
      collect restoringTree [] ⟨"p"⟩ ["*.html"] = .ok fewer ∧
      Excluding restoringTree [] ⟨"p"⟩ [] files := by
  intro files fewer
  have hformed : restoringTree.WellFormed := by decide +kernel
  let standard : Rule := ⟨⟨belowPattern "node_modules".toList⟩, true, false⟩
  let pages : Rule := ⟨⟨.anyDepth :: .many :: ".html".toList.map .literal⟩, true, false⟩
  have hcollect : collect restoringTree [] ⟨"p"⟩ [] = .ok files := by
    have hfiles : filesAt restoringTree [] [standard] ⟨"p"⟩ ["p"] = files := by decide +kernel
    refine collect_eq_ok.2 ⟨[standard], ["p"], rfl, rfl, ?_⟩
    rw [hfiles, List.mergeSort_of_pairwise (by decide)]
  have hfewer : collect restoringTree [] ⟨"p"⟩ ["*.html"] = .ok fewer := by
    have hfiles : filesAt restoringTree [] [standard, pages] ⟨"p"⟩ ["p"] = fewer := by
      decide +kernel
    refine collect_eq_ok.2 ⟨[standard, pages], ["p"], rfl, rfl, ?_⟩
    rw [hfiles, List.mergeSort_singleton]
  exact ⟨hformed, hcollect, hfewer, excluding_of_collect hformed hcollect⟩

end StyleAudit.Files
