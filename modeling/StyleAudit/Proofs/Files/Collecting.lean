import Mathlib
import StyleAudit.Files.Collect
import StyleAudit.Proofs.Files.Within
import StyleAudit.Proofs.Files.Writing

/-! # Collecting again

Collecting looks at where files and directories stand, and reads the files that say what is hidden. It
does not read stylesheets, so that it finds the same files after some of them were written.

* **`Path.name?_of_pieces`**, **`getLast?_of_resolve`** — the last name of a path, and of the place
  that the path leads to.
* **`guides`**, **`SameGuides`** — the names of the files that collecting reads; trees that do not
  differ in what they hold.
* **`Distinct`** — no place has two entries.
* **`collect_eq`** — such trees with the same files have the same files collected.
* **`filesAt`**, **`collect_eq_ok`** — what is collected, before it is sorted.
* **`WritesSheets.sameGuides`**, **`WritesSheets.read?_eq`** — writing stylesheets leaves what
  collecting reads, and the texts of all other files. -/

namespace StyleAudit.Files

/-! ## Last names -/

/-- The pieces of texts with a slash between them. -/
theorem pieces_append (cs ds : List Char) : pieces (cs ++ '/' :: ds) = pieces cs ++ pieces ds := by
  induction cs with
  | nil => simp [pieces]
  | cons c cs ih =>
      rw [List.cons_append, pieces, pieces, ih]
      split
      · rfl
      · obtain ⟨p, ps, hps⟩ := List.exists_cons_of_ne_nil (pieces_ne_nil cs)
        rw [hps]
        rfl

/-- A name can be a step of a path: it is one piece, and neither idle nor two dots. -/
def IsStepName (n : String) : Prop := pieces n.toList = [n.toList] ∧
  Part.ofPiece? n.toList = some (.name n)

instance (n : String) : Decidable (IsStepName n) := inferInstanceAs (Decidable (_ ∧ _))

/-- **The last piece of a path**, if it is a name, is the name of the path. -/
theorem Path.name?_of_pieces {p : Path} {n : String} {ps : List (List Char)}
    (h : pieces p.text.toList = ps ++ [n.toList]) (hn : IsStepName n) : p.name? = some n := by
  have hparts : p.parts.getLast? = some (.name n) := by
    rw [Path.parts_eq, h, partsOf, List.filterMap_append, List.filterMap_cons, hn.2,
      List.filterMap_nil, ← List.append_assoc, List.getLast?_concat]
  rw [Path.name?, hparts]

/-- A path that ends with a slash and a name has that name. -/
theorem Path.name?_of_text {p : Path} {n : String} {cs : List Char}
    (h : p.text.toList = cs ++ '/' :: n.toList) (hn : IsStepName n) : p.name? = some n := by
  refine @Path.name?_of_pieces _ _ (pieces cs) ?_ hn
  rw [h, pieces_append, hn.1]

/-- A name that is read from a path is the name of the whole. -/
theorem Path.name?_join (p : Path) {n : String} (hn : IsStepName n)
    (hrelative : Path.isAbsolute ⟨n⟩ = false) : (p.join ⟨n⟩).name? = some n := by
  rw [Path.join, if_neg (by simp [hrelative])]
  split
  · rename_i hend
    rcases Bool.or_eq_true_iff.1 hend with hempty | hslash
    · -- the name alone
      have htext : p.text = "" := by simpa using hempty
      refine @Path.name?_of_pieces _ _ [] ?_ hn
      rw [htext]
      simpa using hn.1
    · rw [beq_iff_eq] at hslash
      obtain ⟨cs, hcs⟩ := List.getLast?_eq_some_iff.1 hslash
      refine @Path.name?_of_text _ _ cs ?_ hn
      rw [String.toList_append, hcs, List.append_assoc, List.singleton_append]
  · refine @Path.name?_of_text _ _ p.text.toList ?_ hn
    rw [String.toList_append, String.toList_append, List.append_assoc]
    rfl

/-- The name of the path of a place is the last one that leads there. -/
theorem Path.name?_ofLocation (d : Location) {n : String} (hn : IsStepName n) :
    (Path.ofLocation (d ++ [n])).name? = some n := by
  have htext : ∃ cs, ("/" ++ "/".intercalate (d ++ [n])).toList = cs ++ '/' :: n.toList := by
    by_cases hd : d = []
    · exact ⟨[], by simp [hd]⟩
    · refine ⟨'/' :: ("/".intercalate d).toList, ?_⟩
      rw [intercalate_append "/" hd (by simp), String.intercalate_singleton]
      simp
  obtain ⟨cs, hcs⟩ := htext
  exact Path.name?_of_text hcs hn

namespace FileTree

variable {t u : FileTree} {here : Location}

/-- Where parts lead, the last one leads from somewhere. -/
theorem exists_follow_of_foldlM {parts : List Part} {p : Part} {l : Location}
    (h : (parts ++ [p]).foldlM t.follow here = .ok l) : ∃ d, t.follow d p = .ok l := by
  rw [List.foldlM_append] at h
  cases hbefore : parts.foldlM t.follow here with
  | error e =>
      rw [hbefore] at h
      cases h
  | ok d =>
      rw [hbefore] at h
      refine ⟨d, ?_⟩
      cases hfollow : t.follow d p with
      | error e => simp [bind, Except.bind, hfollow] at h
      | ok k => simpa [bind, Except.bind, hfollow, pure, Except.pure] using h

/-- **A path with a name** leads to a place with that name. -/
theorem exists_of_resolve {p : Path} {n : String} {l : Location} (hn : p.name? = some n)
    (h : t.resolve here p = .ok l) : ∃ d, l = d ++ [n] := by
  have hlast : ∃ parts, p.parts = parts ++ [.name n] := by
    unfold Path.name? at hn
    split at hn
    · rename_i m hm
      obtain rfl := Option.some.inj hn
      exact List.getLast?_eq_some_iff.1 hm
    · cases hn
  obtain ⟨parts, hparts⟩ := hlast
  have hfold := foldlM_parts_of_resolve h
  rw [hparts] at hfold
  obtain ⟨d, hstep⟩ := exists_follow_of_foldlM hfold
  rw [follow] at hstep
  split at hstep
  · cases hstep
  · split at hstep
    · exact ⟨d, (Except.ok.inj hstep).symm⟩
    · cases hstep

/-! ## What collecting reads -/

/-- The names of the files that collecting reads. -/
def guides : List String := [".git", ".ignore", ".gitignore", "commondir", "exclude"]

/-- The names of guides are steps of paths. -/
theorem isStepName_of_mem_guides {n : String} (h : n ∈ guides) :
    IsStepName n ∧ Path.isAbsolute ⟨n⟩ = false := by
  have hall : ∀ n ∈ guides, IsStepName n ∧ Path.isAbsolute ⟨n⟩ = false := by decide +kernel
  exact hall n h

/-- Trees in which the same things stand at the same places, and in which the files that collecting
reads hold the same. -/
structure SameGuides (t u : FileTree) : Prop where
  alike : t.Alike u
  get?_eq : ∀ d, ∀ n ∈ guides, t.get? (d ++ [n]) = u.get? (d ++ [n])

namespace SameGuides

variable (h : t.SameGuides u)

include h

/-- A guide has the same rules. -/
theorem rulesAt_eq (d : Location) {n : String} (hn : n ∈ guides) :
    rulesAt t (d ++ [n]) = rulesAt u (d ++ [n]) := by
  rw [rulesAt, rulesAt, file?, file?, h.get?_eq d n hn]

/-- A guide is read with the same text. -/
theorem read?_eq {p : Path} {n : String} (hp : p.name? = some n) (hn : n ∈ guides) :
    t.read? here p = u.read? here p := by
  rw [read?, read?, h.alike.resolve_eq]
  cases hplace : u.resolve here p with
  | error e => rfl
  | ok l =>
      obtain ⟨d, rfl⟩ := exists_of_resolve hp hplace
      show t.textAt? _ = u.textAt? _
      rw [textAt?, textAt?, file?, file?, h.get?_eq d n hn]

/-- A repository has its settings at the same place. -/
theorem settingsPlace?_eq (d : Location) : settingsPlace? t here d = settingsPlace? u here d := by
  have hgit : ".git" ∈ guides := by decide
  have hcommon : "commondir" ∈ guides := by decide
  have hown : firstLine? t here (.ofLocation (d ++ [".git"])) =
      firstLine? u here (.ofLocation (d ++ [".git"])) := by
    rw [firstLine?, firstLine?, h.read?_eq
      (Path.name?_ofLocation d (isStepName_of_mem_guides hgit).1) hgit]
  have hshared (own : Path) : firstLine? t here (own.join ⟨"commondir"⟩) =
      firstLine? u here (own.join ⟨"commondir"⟩) := by
    obtain ⟨hstep, hrelative⟩ := isStepName_of_mem_guides hcommon
    rw [firstLine?, firstLine?, h.read?_eq (Path.name?_join own hstep hrelative) hcommon]
  have hresolve : t.resolve here = u.resolve here := funext fun p => h.alike.resolve_eq here p
  simp only [settingsPlace?, h.get?_eq d ".git" hgit, hown, hshared, hresolve]

/-- The ignore files around a place say the same. -/
theorem ignoreVerdict_eq (l : Location) (isDirectory : Bool) :
    ignoreVerdict t here l isDirectory = ignoreVerdict u here l isDirectory := by
  have hrepository : isRepository t = isRepository u := by
    funext d
    rw [isRepository, isRepository, (h.alike _).1, (h.alike _).1]
  have hown (d : Location) := h.rulesAt_eq d (n := ".ignore") (by decide)
  have hshared (d : Location) := h.rulesAt_eq d (n := ".gitignore") (by decide)
  have hsettings (s : Location) : rulesAt t (s ++ ["info", "exclude"]) =
      rulesAt u (s ++ ["info", "exclude"]) := by
    have hexclude := h.rulesAt_eq (s ++ ["info"]) (n := "exclude") (by decide)
    simpa using hexclude
  simp only [ignoreVerdict, hrepository, hown, hshared, hsettings, h.settingsPlace?_eq]

/-- **Collecting finds the same files** in trees with the same files. -/
theorem collect_eq (hfiles : t.filesIn = u.filesIn) (root : Path) (globs : List String) :
    collect t here root globs = collect u here root globs := by
  have hshown : isShown t here = isShown u here := by
    funext rules root names
    simp only [isShown, hides, h.ignoreVerdict_eq]
  have hdirectory (l : Location) : t.isDirectory l = u.isDirectory l := (h.alike l).2
  simp only [collect, h.alike.resolve_eq, hdirectory, hfiles, hshown]

end SameGuides

/-! ## Writing files of other names -/

/-- No place has two entries. -/
def Distinct (t : FileTree) : Prop := (t.entries.map Prod.fst).Nodup

instance (t : FileTree) : Decidable t.Distinct := inferInstanceAs (Decidable (List.Nodup _))

/-- The places of entries after something was put at a place. -/
theorem places_put (t : FileTree) (l : Location) (e : Entry) :
    (t.put l e).entries.map Prod.fst =
      if l ∈ t.entries.map Prod.fst then t.entries.map Prod.fst
      else t.entries.map Prod.fst ++ [l] := by
  have hmem : (t.entries.any (·.1 == l)) = true ↔ l ∈ t.entries.map Prod.fst := by
    rw [List.any_eq_true, List.mem_map]
    simp only [beq_iff_eq]
  rw [put]
  split
  · rename_i hany
    rw [if_pos (hmem.1 hany), List.map_map]
    refine List.map_congr_left fun d _ => ?_
    obtain ⟨k, f⟩ := d
    show (if k = l then (k, e) else (k, f)).1 = k
    split <;> rfl
  · rename_i hany
    rw [if_neg fun hl => hany (hmem.2 hl), List.map_append]
    rfl

/-- **Putting something at a place** gives no place two entries. -/
theorem Distinct.put (h : t.Distinct) (l : Location) (e : Entry) : (t.put l e).Distinct := by
  rw [Distinct, places_put]
  split
  · exact h
  · rename_i hl
    exact List.Nodup.append h (List.nodup_singleton l) (by simpa using hl)

/-- The only entry for a place is the one that is looked up. -/
theorem Distinct.lookup_eq (h : t.Distinct) {l : Location} {e : Entry} (he : (l, e) ∈ t.entries) :
    t.entries.lookup l = some e := by
  rw [Distinct] at h
  revert h he
  induction t.entries with
  | nil => exact fun _ he => absurd he List.not_mem_nil
  | cons d entries ih =>
      intro h he
      obtain ⟨hfirst, hrest⟩ := List.nodup_cons.1 h
      rw [List.lookup_cons]
      rcases List.mem_cons.1 he with rfl | he
      · rw [beq_self_eq_true]
      · have hne : (l == d.1) = false := beq_eq_false_iff_ne.2 fun hl =>
          hfirst (hl ▸ List.mem_map_of_mem he)
        rw [hne]
        exact ih hrest he

/-- A file that takes the place of a file is found where that was. -/
theorem Distinct.filesIn_put (h : t.Distinct) {l : Location} {c : Content}
    (hl : t.get? l = some (.file c)) (d : Content) : (t.put l (.file d)).filesIn = t.filesIn := by
  funext base
  have hempty : l.isEmpty = false := List.isEmpty_eq_false_iff.2 (ne_nil_of_get? hl)
  rw [get?, hempty] at hl
  have hany : t.entries.any (·.1 == l) = true := by
    rw [← isSome_lookup_eq_any]
    exact Option.isSome_iff_exists.2 ⟨_, hl⟩
  rw [filesIn, filesIn, FileTree.put, if_pos hany, List.filterMap_map]
  refine List.filterMap_congr fun e he => ?_
  obtain ⟨k, f⟩ := e
  by_cases hk : k = l
  · -- the entry for the place is a file before and after
    subst hk
    obtain rfl := Option.some.inj ((h.lookup_eq he).symm.trans hl)
    simp
  · simp [hk]

/-- Writing to files changes nothing about which files there are. -/
theorem Distinct.filesIn_rewrite {writes : List (Location × String)} (h : t.Distinct)
    (hfiles : t.HasFiles writes) : (t.rewrite writes).filesIn = t.filesIn := by
  induction writes generalizing t with
  | nil => rfl
  | cons w writes ih =>
      obtain ⟨l, text⟩ := w
      obtain ⟨c, hc⟩ := hfiles (l, text) List.mem_cons_self
      have hrest : t.HasFiles writes := fun w hw => hfiles w (List.mem_cons_of_mem _ hw)
      rw [rewrite_cons, ih (h.put l _) (hrest.put (ne_nil_of_get? hc) _), h.filesIn_put hc]

end FileTree

/-! ## Kinds -/

/-- The kind of a path depends on its name only. -/
theorem FileKind.ofPath?_congr {p q : Path} (h : p.name? = q.name?) :
    FileKind.ofPath? p = FileKind.ofPath? q := by
  rw [FileKind.ofPath?, FileKind.ofPath?, Path.extension?, Path.extension?, h]

/-- A path with a kind has a name. -/
theorem Path.exists_name?_of_kind {p : Path} {k : FileKind} (h : FileKind.ofPath? p = some k) :
    ∃ n, p.name? = some n := by
  cases hn : p.name? with
  | none => simp [FileKind.ofPath?, Path.extension?, hn] at h
  | some n => exact ⟨n, rfl⟩

/-- A guide has no kind. -/
theorem FileKind.ofPath?_of_mem_guides {p : Path} {n : String} (hn : p.name? = some n)
    (hguide : n ∈ FileTree.guides) : FileKind.ofPath? p = none := by
  have hall : ∀ n ∈ FileTree.guides, Path.name? ⟨n⟩ = some n ∧ FileKind.ofPath? ⟨n⟩ = none := by
    decide +kernel
  obtain ⟨hname, hkind⟩ := hall n hguide
  rw [← hkind]
  exact FileKind.ofPath?_congr (hn.trans hname.symm)

/-! ## What is collected -/

section Collect

variable {t : FileTree} {here : Location} {root : Path} {globs : List String}
  {files : List SourceFile} {f : SourceFile}

/-- The files that are collected at a place, before they are sorted. -/
def filesAt (t : FileTree) (here : Location) (rules : List Ignore.Rule) (root : Path)
    (place : Location) : List SourceFile :=
  if t.isDirectory place then
    ((t.filesIn place).filter (isShown t here rules place)).filterMap fun names =>
      SourceFile.ofPath? (root.join ⟨"/".intercalate names⟩)
  else (SourceFile.ofPath? root).toList

/-- What is collected where the exclusions can be read and the root leads somewhere. -/
theorem collect_of_ok {rules : List Ignore.Rule} {place : Location}
    (hrules : exclusions? (standardExclusions ++ globs) = .ok rules)
    (hplace : t.resolve here root = .ok place) : collect t here root globs =
      .ok ((filesAt t here rules root place).mergeSort fun a b =>
        partsLe a.path.parts b.path.parts) := by
  simp only [collect, hrules, hplace, filesAt]
  cases t.isDirectory place with
  | true => simp
  | false => cases SourceFile.ofPath? root <;> simp

/-- **What is collected**, when it can be: the files at the place of the root, sorted. -/
theorem collect_eq_ok : collect t here root globs = .ok files ↔
    ∃ rules place, exclusions? (standardExclusions ++ globs) = .ok rules ∧
      t.resolve here root = .ok place ∧
      files = (filesAt t here rules root place).mergeSort fun a b =>
        partsLe a.path.parts b.path.parts := by
  constructor
  · intro h
    cases hrules : exclusions? (standardExclusions ++ globs) with
    | error e => simp [collect, hrules] at h
    | ok rules =>
        cases hplace : t.resolve here root with
        | error e => simp [collect, hrules, hplace] at h
        | ok place =>
            rw [collect_of_ok hrules hplace, Except.ok.injEq] at h
            exact ⟨rules, place, rfl, rfl, h.symm⟩
  · rintro ⟨rules, place, hrules, hplace, rfl⟩
    exact collect_of_ok hrules hplace

/-- A file has the path whose kind it has. -/
theorem SourceFile.ofPath?_eq_some {q : Path} (h : SourceFile.ofPath? q = some f) :
    f.path = q ∧ FileKind.ofPath? f.path = some f.kind := by
  obtain ⟨k, hk, rfl⟩ := Option.map_eq_some_iff.1 h
  exact ⟨rfl, hk⟩

/-- The files that are collected have the kinds that their paths tell. -/
theorem kind_of_mem_collect (h : collect t here root globs = .ok files) (hf : f ∈ files) :
    FileKind.ofPath? f.path = some f.kind := by
  obtain ⟨rules, place, -, -, rfl⟩ := collect_eq_ok.1 h
  rw [List.mem_mergeSort, filesAt] at hf
  split at hf
  · obtain ⟨names, -, hpath⟩ := List.mem_filterMap.1 hf
    exact (SourceFile.ofPath?_eq_some hpath).2
  · exact (SourceFile.ofPath?_eq_some (Option.mem_toList.1 hf)).2

end Collect

/-! ## Writing stylesheets -/

namespace FileTree

variable {t : FileTree} {here : Location} {writes : List (Location × String)}

/-- What is written to are the places of stylesheets. -/
def WritesSheets (t : FileTree) (here : Location) (writes : List (Location × String)) : Prop :=
  ∀ w ∈ writes, ∃ q, t.resolve here q = .ok w.1 ∧ FileKind.ofPath? q = some .stylesheet

/-- A path that is no stylesheet's does not lead to a place that is written to. -/
theorem WritesSheets.not_mem (h : t.WritesSheets here writes) {n : String} {d : Location}
    (hkind : ∀ q : Path, q.name? = some n → FileKind.ofPath? q ≠ some .stylesheet) :
    d ++ [n] ∉ writes.map Prod.fst := by
  intro hmem
  obtain ⟨w, hw, hplace⟩ := List.mem_map.1 hmem
  obtain ⟨q, hresolve, hsheet⟩ := h w hw
  obtain ⟨m, hm⟩ := Path.exists_name?_of_kind hsheet
  obtain ⟨d', hd'⟩ := exists_of_resolve hm hresolve
  -- the place has one last name
  have hsame : m = n := by
    rw [hplace] at hd'
    simpa using (List.append_inj_right' hd' rfl).symm
  exact hkind q (hsame ▸ hm) hsheet

/-- **Writing stylesheets** leaves what collecting reads. -/
theorem WritesSheets.sameGuides (h : t.WritesSheets here writes) (hfiles : t.HasFiles writes) :
    (t.rewrite writes).SameGuides t where
  alike := hfiles.alike_rewrite
  get?_eq := fun _ n hn => hfiles.get?_rewrite_of_not_mem
    (h.not_mem fun q hq => by simp [FileKind.ofPath?_of_mem_guides hq hn])

/-- **Writing stylesheets** leaves the texts of other files. -/
theorem WritesSheets.read?_eq (h : t.WritesSheets here writes) (hfiles : t.HasFiles writes)
    {q : Path} {k : FileKind} (hk : FileKind.ofPath? q = some k) (hne : k ≠ .stylesheet) :
    (t.rewrite writes).read? here q = t.read? here q := by
  rw [read?, read?, hfiles.alike_rewrite.resolve_eq]
  cases hplace : t.resolve here q with
  | error e => rfl
  | ok l =>
      obtain ⟨n, hn⟩ := Path.exists_name?_of_kind hk
      obtain ⟨d, rfl⟩ := exists_of_resolve hn hplace
      have hother : ∀ q' : Path, q'.name? = some n →
          FileKind.ofPath? q' ≠ some .stylesheet := by
        intro q' hq'
        rw [FileKind.ofPath?_congr (hq'.trans hn.symm), hk]
        simpa using hne
      show (t.rewrite writes).textAt? _ = t.textAt? _
      rw [textAt?, textAt?, file?, file?,
        hfiles.get?_rewrite_of_not_mem (h.not_mem hother)]

end FileTree

end StyleAudit.Files
