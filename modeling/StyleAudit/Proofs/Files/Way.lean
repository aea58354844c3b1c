import Mathlib
import StyleAudit.Proofs.Files.Below
import StyleAudit.Report.Text

/-! # Ways from one place to another

A path is shown by the way that leads to it from a directory: up to the last directory that both have
in common, and down from there. Steps up take back the names of the directory, so the way leads to the
place of the path, and whatever steps up the path itself has are made on the way down.

* **`Path.placeFrom`** — where a path leads by its text alone.
* **`FileTree.eq_placeFrom_of_resolve`** — a tree of files leads nowhere else.
* **`Path.placeFrom_join`** — where a path leads that is continued by another.
* **`exists_relative?`**, **`relative?_eq_none`** — the parts of a way.
* **`Path.placeFrom_join_wayFrom`** — the way to a path leads to its place.
* **`FileTree.WellFormed.resolve_wayFrom`** — in a tree of files, to the same file.
* **`Display.placeFrom_path`**, **`Display.resolve_path`** — so does what a report shows of a path. -/

namespace StyleAudit.Files

/-! ## Places -/

/-- Where a part leads from a place by its text alone, whether or not there is something. Above the
root is the root. -/
def Part.placeFrom (l : Location) : Part → Location
  | .root => []
  | .current => l
  | .parent => l.dropLast
  | .name n => l ++ [n]

/-- Where a path leads by its text alone: its parts are followed one after the other. -/
def Path.placeFrom (here : Location) (p : Path) : Location := p.parts.foldl Part.placeFrom here

/-- Names lead down from a place. -/
theorem foldl_placeFrom_names (l names : Location) :
    (names.map Part.name).foldl Part.placeFrom l = l ++ names := by
  induction names generalizing l with
  | nil => exact (List.append_nil l).symm
  | cons n names ih =>
      rw [List.map_cons, List.foldl_cons, ih, Part.placeFrom, List.append_assoc,
        List.singleton_append]

/-- **Names and as many steps up** lead back to where they began. -/
theorem foldl_placeFrom_up (l : Location) {up : List Part} (h : ∀ part ∈ up, ∃ n, part = .name n) :
    (up ++ up.map fun _ => Part.parent).foldl Part.placeFrom l = l := by
  induction up generalizing l with
  | nil => rfl
  | cons part up ih =>
      obtain ⟨⟨n, rfl⟩, hup⟩ := List.forall_mem_cons.1 h
      -- the first name is taken back by the last step up
      have hlast : ((Part.name n :: up).map fun _ => Part.parent) =
          (up.map fun _ => Part.parent) ++ [.parent] := by
        rw [List.map_const', List.map_const', List.length_cons, List.replicate_succ']
      rw [hlast, List.cons_append, List.foldl_cons, ← List.append_assoc, List.foldl_append,
        ih _ hup]
      exact List.dropLast_concat

namespace FileTree

variable {t : FileTree} {here l : Location}

/-- Where a part leads in a tree of files, it leads by its text. -/
theorem eq_placeFrom_of_follow {part : Part} (h : t.follow here part = .ok l) :
    l = part.placeFrom here := by
  cases part with
  | root => exact (Except.ok.inj h).symm
  | current | parent =>
      rw [follow] at h
      split at h
      · exact (Except.ok.inj h).symm
      · cases h
  | name n =>
      rw [follow] at h
      split at h
      · cases h
      · split at h
        · exact (Except.ok.inj h).symm
        · cases h

/-- Where parts lead in a tree of files, they lead by their texts. -/
theorem eq_foldl_placeFrom {parts : List Part} (h : parts.foldlM t.follow here = .ok l) :
    l = parts.foldl Part.placeFrom here := by
  induction parts generalizing here with
  | nil => exact (Except.ok.inj h).symm
  | cons part parts ih =>
      rw [List.foldlM_cons] at h
      cases hstep : t.follow here part with
      | error e =>
          rw [hstep] at h
          cases h
      | ok next =>
          rw [hstep] at h
          rw [List.foldl_cons, ← eq_placeFrom_of_follow hstep]
          exact ih h

/-- **In a tree of files**, a path that leads anywhere leads where its text says. -/
theorem eq_placeFrom_of_resolve {p : Path} (h : t.resolve here p = .ok l) :
    l = p.placeFrom here :=
  eq_foldl_placeFrom (foldlM_parts_of_resolve h)

end FileTree

/-! ## The parts of a way -/

/-- **The common beginning** of two lists: what is left of each of them follows it. -/
theorem exists_common (ps qs : List Part) : ∃ common,
    ps = common ++ (splitCommon ps qs).2.1 ∧ qs = common ++ (splitCommon ps qs).2.2 := by
  induction ps generalizing qs with
  | nil => exact ⟨[], rfl, by cases qs <;> rfl⟩
  | cons p ps ih =>
      cases qs with
      | nil => exact ⟨[], rfl, rfl⟩
      | cons q qs =>
          by_cases hpq : p = q
          · subst hpq
            obtain ⟨common, hps, hqs⟩ := ih qs
            rw [splitCommon, if_pos rfl]
            exact ⟨p :: common, congrArg (p :: ·) hps, congrArg (p :: ·) hqs⟩
          · rw [splitCommon, if_neg hpq]
            exact ⟨[], rfl, rfl⟩

/-- **From a directory with the same first part**, as many steps lead up as it has parts that the
target has not, and then the parts lead down that only the target has. -/
theorem exists_relative? (part : Part) (target base : List Part) : ∃ common down up,
    target = common ++ down ∧ base = common ++ up ∧
      relative? (part :: target) (part :: base) =
        some (up.map (fun _ => .parent) ++ down.filter Part.isStep) := by
  obtain ⟨common, htarget, hbase⟩ := exists_common target base
  refine ⟨common, _, _, htarget, hbase, ?_⟩
  simp only [relative?, splitCommon, if_pos]

/-- **Where the first parts differ**, there is no way. -/
theorem relative?_eq_none {target base : List Part} (h : target.head? ≠ base.head?) :
    relative? target base = none := by
  cases target with
  | nil => rfl
  | cons p ps =>
      cases base with
      | nil => rfl
      | cons q qs =>
          have hpq : p ≠ q := fun hpq => h (congrArg some hpq)
          simp only [relative?, splitCommon, if_neg hpq]

/-- A step that does not lead up is a name. -/
theorem Part.exists_name {part : Part} (hstep : part.isStep = true) (hup : part ≠ .parent) :
    ∃ n, part = .name n := by
  cases part with
  | root | current => cases hstep
  | parent => exact absurd rfl hup
  | name n => exact ⟨n, rfl⟩

/-! ## Parts that are written -/

/-- A step up can stand inside a path. -/
theorem isWritten_parent : Part.parent.IsWritten := ⟨by decide, by decide⟩

/-- The part that a piece stands for is spelled like the piece. -/
theorem spelling_of_ofPiece? {piece : List Char} {part : Part}
    (h : Part.ofPiece? piece = some part) : part.spelling.toList = piece := by
  unfold Part.ofPiece? at h
  split at h
  · cases h
  · split at h
    · rename_i hdots
      obtain rfl := Option.some.inj h
      exact hdots.symm
    · obtain rfl := Option.some.inj h
      exact String.toList_ofList

/-- The steps of a path can stand inside a path. -/
theorem isWritten_of_mem_partsOf {cs : List Char} {part : Part} (h : part ∈ partsOf (pieces cs)) :
    part.IsWritten := by
  obtain ⟨piece, hpiece, hpart⟩ := List.mem_filterMap.1 h
  rw [Part.IsWritten, spelling_of_ofPiece? hpart]
  exact ⟨slash_not_mem_pieces hpiece, hpart⟩

namespace Path

variable {p target base : Path} {parts : List Part}

/-- Parts that are written make a relative path. -/
theorem isAbsolute_ofParts (h : ∀ part ∈ parts, part.IsWritten) :
    (ofParts parts).isAbsolute = false := by
  rw [ofParts]
  split
  · rfl
  · rename_i hempty
    exact isAbsolute_spellings (by simpa using hempty) h

/-- The pieces of a path that parts make are their spellings. -/
theorem pieces_ofParts (hne : parts ≠ []) (h : ∀ part ∈ parts, part.IsWritten) :
    pieces (ofParts parts).text.toList = parts.map (·.spelling.toList) := by
  rw [ofParts, if_neg (by simpa using hne)]
  exact pieces_spellings hne h

/-- **The steps of a path that parts make** are these parts. -/
theorem partsOf_ofParts (h : ∀ part ∈ parts, part.IsWritten) :
    partsOf (pieces (ofParts parts).text.toList) = parts := by
  by_cases hne : parts = []
  · subst hne
    decide
  · rw [pieces_ofParts hne h, partsOf_spellings h]

/-- **The parts of a path that parts make** are these parts, if there are any. -/
theorem parts_ofParts (hne : parts ≠ []) (h : ∀ part ∈ parts, part.IsWritten) :
    (ofParts parts).parts = parts := by
  obtain ⟨first, rest, rfl⟩ := List.exists_cons_of_ne_nil hne
  have hfirst : isIdle first.spelling.toList = false := (h first List.mem_cons_self).not_isIdle
  rw [parts_eq, partsOf_ofParts h, pieces_ofParts hne h, List.map_cons,
    leadOf_cons_of_not_isIdle hfirst, List.nil_append]

/-! ## Where a path leads -/

/-- An absolute path begins at the root, and steps follow. -/
theorem parts_of_isAbsolute (h : p.isAbsolute = true) :
    p.parts = .root :: partsOf (pieces p.text.toList) := by
  obtain ⟨piece, ps, hps⟩ := isAbsolute_iff.1 h
  rw [parts_eq, hps]
  rfl

/-- **A path is absolute** if its first part is the root. -/
theorem head?_parts_eq_root_iff : p.parts.head? = some .root ↔ p.isAbsolute = true := by
  constructor
  · intro h
    rw [isAbsolute_iff]
    rw [parts_eq] at h
    unfold leadOf at h
    split at h
    · rename_i piece ps hps
      exact ⟨piece, ps, hps⟩
    · cases h
    · -- the first part is a step, and the root is none
      have hstep := isStep_of_mem_partsOf (List.mem_of_mem_head? h)
      cases hstep
  · intro h
    rw [parts_of_isAbsolute h, List.head?_cons]

/-- An absolute path leads to one place, wherever it is read. -/
theorem placeFrom_of_isAbsolute (h : p.isAbsolute = true) (here there : Location) :
    p.placeFrom here = p.placeFrom there := by
  rw [placeFrom, placeFrom, parts_of_isAbsolute h, List.foldl_cons, List.foldl_cons]
  rfl

/-- A relative path leads where its steps lead. -/
theorem placeFrom_of_relative (h : p.isAbsolute = false) (here : Location) :
    p.placeFrom here = (partsOf (pieces p.text.toList)).foldl Part.placeFrom here := by
  have hroot : p.parts.head? ≠ some .root := by
    rw [ne_eq, head?_parts_eq_root_iff, h]
    exact Bool.false_ne_true
  rw [parts_eq] at hroot
  rw [placeFrom, parts_eq]
  rcases leadOf_cases (pieces p.text.toList) with hlead | ⟨part, hlead, hstep⟩
  · rw [hlead, List.nil_append]
  · rw [hlead] at hroot ⊢
    cases part with
    | root => exact absurd rfl hroot
    | current => rfl
    | parent | name => cases hstep

/-- Parts that are written lead where the path leads that they make. -/
theorem placeFrom_ofParts (h : ∀ part ∈ parts, part.IsWritten) (here : Location) :
    (ofParts parts).placeFrom here = parts.foldl Part.placeFrom here := by
  rw [placeFrom_of_relative (isAbsolute_ofParts h), partsOf_ofParts h]

/-- **A path that is continued by another** leads where the other leads from its place. -/
theorem placeFrom_join (p q : Path) (here : Location) :
    (p.join q).placeFrom here = q.placeFrom (p.placeFrom here) := by
  cases hq : q.isAbsolute with
  | true =>
      rw [join, if_pos hq]
      exact placeFrom_of_isAbsolute hq _ _
  | false =>
      by_cases hp : p.text = ""
      · -- nothing is put in front, and an empty path leads nowhere else
        have hjoin : p.join q = q := by simp [join, hq, hp]
        obtain ⟨text⟩ := p
        obtain rfl : text = "" := hp
        rw [hjoin]
        rfl
      · rw [placeFrom, parts_join hp hq, List.foldl_append, placeFrom_of_relative hq]
        rfl

/-! ## The way to a path -/

/-- **The way to an absolute path** from an absolute one without steps up: out of the names that only
the directory has, and along the steps that only the target has. -/
theorem exists_wayFrom? (htarget : target.isAbsolute = true) (hbase : base.isAbsolute = true)
    (hnames : .parent ∉ base.parts) : ∃ common up down,
      base.parts = (.root :: common) ++ up ∧ target.parts = (.root :: common) ++ down ∧
      (∀ part ∈ up, ∃ n, part = .name n) ∧
      (∀ part ∈ up.map (fun _ => Part.parent) ++ down, part.IsWritten) ∧
      target.wayFrom? base = some (ofParts (up.map (fun _ => .parent) ++ down)) := by
  obtain ⟨common, down, up, hdown, hup, hway⟩ := exists_relative? .root
    (partsOf (pieces target.text.toList)) (partsOf (pieces base.text.toList))
  have hdownMem : ∀ part ∈ down, part ∈ partsOf (pieces target.text.toList) := by
    intro part hpart
    rw [hdown]
    exact List.mem_append_right _ hpart
  have hupMem : ∀ part ∈ up, part ∈ partsOf (pieces base.text.toList) := by
    intro part hpart
    rw [hup]
    exact List.mem_append_right _ hpart
  -- after the root there are only steps, so nothing of the way down is left out
  have hsteps : down.filter Part.isStep = down :=
    List.filter_eq_self.2 fun part hpart => isStep_of_mem_partsOf (hdownMem part hpart)
  rw [← parts_of_isAbsolute htarget, ← parts_of_isAbsolute hbase, hsteps] at hway
  rw [parts_of_isAbsolute hbase] at hnames
  refine ⟨common, up, down, ?_, ?_, ?_, ?_, ?_⟩
  · rw [parts_of_isAbsolute hbase, List.cons_append, ← hup]
  · rw [parts_of_isAbsolute htarget, List.cons_append, ← hdown]
  · intro part hpart
    have hmem := hupMem part hpart
    apply Part.exists_name (isStep_of_mem_partsOf hmem)
    rintro rfl
    exact hnames (List.mem_cons_of_mem _ hmem)
  · intro part hpart
    rcases List.mem_append.1 hpart with hpart | hpart
    · obtain ⟨-, -, rfl⟩ := List.mem_map.1 hpart
      exact isWritten_parent
    · exact isWritten_of_mem_partsOf (hdownMem part hpart)
  · rw [wayFrom?, hway]
    rfl

/-- The way to an absolute path leads there from the place of the directory. -/
theorem exists_wayFrom?_eq_some (htarget : target.isAbsolute = true)
    (hbase : base.isAbsolute = true) (hnames : .parent ∉ base.parts) :
    ∃ way, target.wayFrom? base = some way ∧ way.isAbsolute = false ∧
      ∀ here, way.placeFrom (base.placeFrom here) = target.placeFrom here := by
  obtain ⟨common, up, down, hbaseParts, htargetParts, hup, hwritten, hway⟩ :=
    exists_wayFrom? htarget hbase hnames
  refine ⟨_, hway, isAbsolute_ofParts hwritten, ?_⟩
  intro here
  -- after the steps up, the way stands where target and base part
  have hback := foldl_placeFrom_up ((Part.root :: common).foldl Part.placeFrom here) hup
  rw [List.foldl_append] at hback
  rw [placeFrom_ofParts hwritten, placeFrom, placeFrom, hbaseParts, htargetParts]
  simp only [List.foldl_append, hback]

/-- **The way to a path leads back to its place.** From an absolute directory whose path has no steps
up, there is a relative path to every absolute target; read from the directory it leads, by its text
alone, where the target leads. Where the first parts differ, as those of an absolute and a relative path
do, there is none. -/
theorem placeFrom_join_wayFrom (target base : Path) :
    (target.isAbsolute = true → base.isAbsolute = true → .parent ∉ base.parts →
      ∃ way, target.wayFrom? base = some way ∧ way.isAbsolute = false ∧
        ∀ here, (base.join way).placeFrom here = target.placeFrom here) ∧
    (target.parts.head? ≠ base.parts.head? → target.wayFrom? base = none) ∧
    (target.isAbsolute ≠ base.isAbsolute → target.wayFrom? base = none) := by
  have hnone : target.parts.head? ≠ base.parts.head? → target.wayFrom? base = none := by
    intro hhead
    rw [wayFrom?, relative?_eq_none hhead]
    rfl
  refine ⟨?_, hnone, ?_⟩
  · intro htarget hbase hnames
    obtain ⟨way, hway, hrelative, hleads⟩ := exists_wayFrom?_eq_some htarget hbase hnames
    refine ⟨way, hway, hrelative, ?_⟩
    intro here
    rw [placeFrom_join, hleads]
  · intro habsolute
    apply hnone
    intro hhead
    apply habsolute
    rw [Bool.eq_iff_iff, ← head?_parts_eq_root_iff, ← head?_parts_eq_root_iff, hhead]

/-- The way to a stylesheet whose path climbs back out of what it has in common with the directory, and
to one whose path is relative. -/
theorem placeFrom_join_wayFrom_climbing :
    let base : Path := ⟨"/project/apps/api"⟩
    let climbing : Path := ⟨"/project/apps/../web/./site.css"⟩
    let relative : Path := ⟨"styles/site.css"⟩
    (climbing.isAbsolute = true ∧ base.isAbsolute = true ∧ .parent ∉ base.parts) ∧
      climbing.wayFrom? base = some ⟨"../../web/site.css"⟩ ∧
      (base.join ⟨"../../web/site.css"⟩).placeFrom [] = ["project", "web", "site.css"] ∧
      (relative.parts.head? ≠ base.parts.head? ∧ relative.isAbsolute ≠ base.isAbsolute) ∧
      relative.wayFrom? base = none := by
  intro base climbing relative
  have hclimbing : climbing.isAbsolute = true := by decide +kernel
  have hbase : base.isAbsolute = true := by decide +kernel
  have hnames : .parent ∉ base.parts := by decide +kernel
  have hway : climbing.wayFrom? base = some ⟨"../../web/site.css"⟩ := by decide +kernel
  have hplace : climbing.placeFrom [] = ["project", "web", "site.css"] := by decide +kernel
  have hhead : relative.parts.head? ≠ base.parts.head? := by decide +kernel
  have habsolute : relative.isAbsolute ≠ base.isAbsolute := by decide +kernel
  obtain ⟨way, hsome, -, hleads⟩ := (placeFrom_join_wayFrom climbing base).1 hclimbing hbase hnames
  obtain rfl : ⟨"../../web/site.css"⟩ = way := Option.some.inj (hway.symm.trans hsome)
  exact ⟨⟨hclimbing, hbase, hnames⟩, hway, (hleads []).trans hplace, ⟨hhead, habsolute⟩,
    (placeFrom_join_wayFrom relative base).2.1 hhead⟩

/-! ## The path of a place -/

/-- **The parts of the path of a place** are the root and the names that lead there. -/
theorem parts_ofLocation {l : Location} (h : ∀ n ∈ l, IsStepName n) :
    (ofLocation l).parts = .root :: l.map .name := by
  have htext : (ofLocation l).text.toList = '/' :: ("/".intercalate l).toList := by
    rw [ofLocation, String.toList_append]
    rfl
  have habsolute : (ofLocation l).isAbsolute = true := by
    rw [isAbsolute, htext]
    rfl
  rw [parts_of_isAbsolute habsolute, htext, pieces, if_pos rfl]
  by_cases hne : l = []
  · subst hne
    rfl
  · obtain ⟨-, -, hparts⟩ := names_facts hne h
    rw [← hparts]
    rfl

/-- The path of a place is absolute. -/
theorem isAbsolute_ofLocation {l : Location} (h : ∀ n ∈ l, IsStepName n) :
    (ofLocation l).isAbsolute = true := by
  rw [← head?_parts_eq_root_iff, parts_ofLocation h, List.head?_cons]

/-- The path of a place has no steps up. -/
theorem parent_not_mem_ofLocation {l : Location} (h : ∀ n ∈ l, IsStepName n) :
    .parent ∉ (ofLocation l).parts := by
  rw [parts_ofLocation h]
  simp

/-- The path of a place leads there. -/
theorem placeFrom_ofLocation {l : Location} (h : ∀ n ∈ l, IsStepName n) (here : Location) :
    (ofLocation l).placeFrom here = l := by
  rw [placeFrom, parts_ofLocation h, List.foldl_cons, foldl_placeFrom_names]
  exact List.nil_append l

/-- An absolute path stays one when another is read from it. -/
theorem isAbsolute_join {p : Path} (h : p.isAbsolute = true) (q : Path) :
    (p.join q).isAbsolute = true := by
  cases hq : q.isAbsolute with
  | true => rw [join, if_pos hq, hq]
  | false =>
      have htext : p.text ≠ "" := by
        intro hempty
        rw [isAbsolute, hempty] at h
        cases h
      rw [← head?_parts_eq_root_iff, parts_join htext hq, parts_of_isAbsolute h]
      rfl

end Path

/-! ## Ways in a tree of files -/

namespace FileTree

variable {t : FileTree} {here l : Location}

/-- Steps up lead out of a directory that names lead to. -/
theorem WellFormed.foldlM_follow_up (h : t.WellFormed) (names : Location)
    (hdirectory : t.isDirectory (l ++ names) = true) :
    (names.map fun _ => Part.parent).foldlM t.follow (l ++ names) = .ok l := by
  induction names using List.reverseRecOn with
  | nil => simp [pure, Except.pure]
  | append_singleton names n ih =>
      -- the first step up takes back the last name
      have hsteps : ((names ++ [n]).map fun _ => Part.parent) =
          .parent :: names.map fun _ => Part.parent := by
        rw [List.map_const', List.map_const', List.length_append, List.length_singleton,
          List.replicate_succ]
      have houter : (l ++ (names ++ [n])).dropLast = l ++ names := by
        rw [← List.append_assoc, List.dropLast_concat]
      have hfirst : t.follow (l ++ (names ++ [n])) .parent = .ok (l ++ names) := by
        rw [follow, if_pos hdirectory, houter]
      have hnext := h.isDirectory_dropLast hdirectory
      rw [houter] at hnext
      rw [hsteps, List.foldlM_cons, hfirst]
      exact ih hnext

/-- The names that lead to a directory are steps of paths. -/
theorem WellFormed.isStepName_of_isDirectory (h : t.WellFormed) (hl : t.isDirectory l = true) :
    ∀ n ∈ l, IsStepName n := by
  intro n hn
  have hne : l ≠ [] := List.ne_nil_of_mem hn
  obtain ⟨e, he⟩ := exists_mem_entries hne (has_of_isDirectory hl)
  exact h.names _ he n hn

/-- **Where parts lead** from a directory, the path leads that they make. -/
theorem resolve_ofParts {parts : List Part} (hwritten : ∀ part ∈ parts, part.IsWritten)
    (hhere : t.isDirectory here = true) (hparts : parts.foldlM t.follow here = .ok l) :
    t.resolve here (.ofParts parts) = .ok l := by
  by_cases hne : parts = []
  · -- the dot leads to the directory itself
    subst hne
    obtain rfl : here = l := Except.ok.inj hparts
    have hdot : (Path.ofParts []).parts = [.current] := by decide
    have hfold : [Part.current].foldlM t.follow here = .ok here := by
      rw [List.foldlM_cons, follow, if_pos hhere]
      rfl
    have htext : (Path.ofParts []).text.isEmpty = false := by decide
    rw [resolve, hdot, hfold, htext]
    simp only [bind, Except.bind, hhere, Bool.not_true, Bool.and_false]
    rfl
  · obtain ⟨front, last, rfl⟩ := (List.eq_nil_or_concat' parts).resolve_left hne
    have hlast : last.IsWritten := hwritten last (by simp)
    -- the text does not end with a slash, since its last piece is a step
    have hend : (pieces (Path.ofParts (front ++ [last])).text.toList).getLast?.any isIdle =
        false := by
      rw [Path.pieces_ofParts hne hwritten, List.map_append, List.map_singleton,
        List.getLast?_concat]
      exact hlast.not_isIdle
    have htext : (Path.ofParts (front ++ [last])).text.isEmpty = false := by
      rw [← Bool.not_eq_true, String.isEmpty_iff]
      intro hempty
      rw [hempty] at hend
      cases hend
    rw [resolve, htext, Path.parts_ofParts hne hwritten, hparts, hend]
    rfl

/-- **The way to a path leads to the same place in a tree of files**, from a directory to every place
that the path leads to. -/
theorem WellFormed.resolve_wayFrom (h : t.WellFormed) (hhere : t.isDirectory here = true)
    {p : Path} (habsolute : p.isAbsolute = true) (hresolve : t.resolve here p = .ok l) :
    ∃ way, p.wayFrom? (.ofLocation here) = some way ∧ t.resolve here way = .ok l := by
  have hsteps := h.isStepName_of_isDirectory hhere
  obtain ⟨common, up, down, hbaseParts, htargetParts, -, hwritten, hway⟩ :=
    Path.exists_wayFrom? habsolute (Path.isAbsolute_ofLocation hsteps)
      (Path.parent_not_mem_ofLocation hsteps)
  refine ⟨_, hway, resolve_ofParts hwritten hhere ?_⟩
  -- the directory lies below the place where it parts with the path
  rw [Path.parts_ofLocation hsteps, List.cons_append] at hbaseParts
  obtain ⟨above, below, rfl, rfl, rfl⟩ := List.map_eq_append_iff.1 (List.cons.inj hbaseParts).2
  have hfold := foldlM_parts_of_resolve hresolve
  rw [htargetParts, List.foldlM_append] at hfold
  cases hfork : (Part.root :: above.map Part.name).foldlM t.follow (above ++ below) with
  | error e =>
      rw [hfork] at hfold
      cases hfold
  | ok fork =>
      have hplace := eq_foldl_placeFrom hfork
      rw [List.foldl_cons, foldl_placeFrom_names] at hplace
      obtain rfl : fork = above := hplace
      rw [hfork] at hfold
      rw [List.foldlM_append, List.map_map]
      have hback := h.foldlM_follow_up below hhere
      rw [show ((fun _ => Part.parent) ∘ Part.name) = fun _ => Part.parent from rfl, hback]
      exact hfold

end FileTree

end StyleAudit.Files

namespace StyleAudit.Report

open Files

namespace Display

variable {d : Display} {root : Path}

/-- **What is shown of a path** in a report leads, from the working directory, to the place that the
path leads to from the root of the project. -/
theorem placeFrom_path (hroot : d.root = some root) (habsolute : root.isAbsolute = true)
    (hhere : ∀ n ∈ d.here, IsStepName n) (file : String) :
    Path.placeFrom d.here ⟨d.path file⟩ = (root.join ⟨file⟩).placeFrom d.here := by
  obtain ⟨way, hway, -, hleads⟩ := Path.exists_wayFrom?_eq_some
    (Path.isAbsolute_join habsolute ⟨file⟩) (Path.isAbsolute_ofLocation hhere)
    (Path.parent_not_mem_ofLocation hhere)
  have hshown := hleads d.here
  rw [Path.placeFrom_ofLocation hhere] at hshown
  rw [path, hroot]
  simp only [hway]
  exact hshown

/-- **What is shown of a file** in a report opens the file. -/
theorem resolve_path {t : FileTree} {l : Location} {file : String} (h : t.WellFormed)
    (hhere : t.isDirectory d.here = true) (hroot : d.root = some root)
    (habsolute : root.isAbsolute = true)
    (hresolve : t.resolve d.here (root.join ⟨file⟩) = .ok l) :
    t.resolve d.here ⟨d.path file⟩ = .ok l := by
  obtain ⟨way, hway, hleads⟩ :=
    h.resolve_wayFrom hhere (Path.isAbsolute_join habsolute ⟨file⟩) hresolve
  rw [path, hroot]
  simp only [hway]
  exact hleads

end Display

end StyleAudit.Report
