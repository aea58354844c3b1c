import Mathlib
import StyleAudit.Proofs.Files.Collecting
import StyleAudit.Proofs.Files.Within

/-! # Places below a directory

In a tree of files, directories stand on the way to every place, and each of the names that lead
there is a step of a path. A path that is continued by such names has these names as its last parts,
and leads on to the place that they lead to.

* **`FileTree.WellFormed`** — what holds of every tree of files.
* **`FileTree.mem_filesIn`** — the files below a directory.
* **`Part.IsWritten`**, **`pieces_spellings`** — parts that are joined by slashes are read back.
* **`Path.parts_join`** — the parts of a path that is continued by another.
* **`FileTree.WellFormed.resolve_join`** — where it leads.
* **`FileTree.WellFormed.make`** — trees are well-formed however they are made. -/

namespace StyleAudit.Files

/-! ## Beginnings -/

/-- The places on the way to a place, and the place itself. -/
theorem mem_beginnings {d l : Location} : d ∈ beginnings l ↔ d <+: l := by
  induction l generalizing d with
  | nil => simp [beginnings]
  | cons n l ih =>
      cases d with
      | nil => simp [beginnings]
      | cons m d => simp [beginnings, ih, List.cons_prefix_cons, eq_comm, and_comm]

/-- The places on the way to a place below a directory. -/
theorem beginnings_concat (l : Location) (n : String) :
    beginnings (l ++ [n]) = beginnings l ++ [l ++ [n]] := by
  induction l with
  | nil => rfl
  | cons m l ih => simp [beginnings, ih]

/-! ## Paths -/

/-- A step holds no slash. -/
theorem IsStepName.slash_not_mem {n : String} (h : IsStepName n) : '/' ∉ n.toList := by
  have hpiece : n.toList ∈ pieces n.toList := by
    rw [h.1]
    exact List.mem_singleton_self _
  exact slash_not_mem_pieces hpiece

/-- A part that can stand inside a path: it is read back from its spelling. -/
def Part.IsWritten (part : Part) : Prop :=
  '/' ∉ part.spelling.toList ∧ Part.ofPiece? part.spelling.toList = some part

/-- Parts inside a path say something. -/
theorem Part.IsWritten.not_isIdle {part : Part} (h : part.IsWritten) :
    isIdle part.spelling.toList = false := by
  cases hidle : isIdle part.spelling.toList with
  | false => rfl
  | true =>
      have hnone := ofPiece?_of_isIdle hidle
      rw [h.2] at hnone
      cases hnone

/-- A step can stand inside a path. -/
theorem IsStepName.isWritten {n : String} (h : IsStepName n) : (Part.name n).IsWritten :=
  ⟨h.slash_not_mem, h.2⟩

/-- The pieces of parts that are joined by slashes. -/
theorem pieces_spellings {parts : List Part} (hne : parts ≠ [])
    (h : ∀ part ∈ parts, part.IsWritten) :
    pieces ("/".intercalate (parts.map Part.spelling)).toList =
      parts.map (·.spelling.toList) := by
  rw [String.toList_intercalate, List.map_map]
  refine pieces_intercalate (by simpa using hne) fun piece hpiece => ?_
  obtain ⟨part, hpart, rfl⟩ := List.mem_map.1 hpiece
  exact (h part hpart).1

/-- These pieces stand for the parts. -/
theorem partsOf_spellings {parts : List Part} (h : ∀ part ∈ parts, part.IsWritten) :
    partsOf (parts.map (·.spelling.toList)) = parts := by
  rw [partsOf, List.filterMap_map]
  calc parts.filterMap (Part.ofPiece? ∘ (·.spelling.toList))
      = parts.filterMap some := List.filterMap_congr fun part hpart => (h part hpart).2
    _ = parts := List.filterMap_some

/-- Parts that are joined by slashes do not begin at the root. -/
theorem isAbsolute_spellings {parts : List Part} (hne : parts ≠ [])
    (h : ∀ part ∈ parts, part.IsWritten) :
    Path.isAbsolute ⟨"/".intercalate (parts.map Part.spelling)⟩ = false := by
  rw [← Bool.not_eq_true, Path.isAbsolute_iff, pieces_spellings hne h]
  rintro ⟨piece, ps, heq⟩
  obtain ⟨part, parts, rfl⟩ := List.exists_cons_of_ne_nil hne
  have hidle : isIdle part.spelling.toList = false := (h part List.mem_cons_self).not_isIdle
  have hempty : part.spelling.toList = [] := (List.cons.inj heq).1
  rw [hempty] at hidle
  cases hidle

/-- One empty piece is all of an empty text. -/
theorem eq_nil_of_pieces {cs : List Char} (h : pieces cs = [[]]) : cs = [] := by
  cases cs with
  | nil => rfl
  | cons c cs =>
      obtain ⟨first, rest, hrest⟩ := List.exists_cons_of_ne_nil (pieces_ne_nil cs)
      rw [pieces, hrest] at h
      split at h <;> simp at h

namespace Path

variable {p q : Path} {names : Location}

/-- A path that is not empty has a part. -/
theorem parts_ne_nil (h : p.text ≠ "") : p.parts ≠ [] := by
  obtain ⟨piece, ps, hps⟩ := List.exists_cons_of_ne_nil (pieces_ne_nil p.text.toList)
  rw [parts_eq, hps]
  intro hnil
  obtain ⟨hlead, hparts⟩ := List.append_eq_nil_iff.1 hnil
  cases hidle : isIdle piece with
  | false =>
      obtain ⟨part, hpart, -⟩ := exists_ofPiece? hidle
      rw [partsOf, List.filterMap_cons, hpart] at hparts
      cases hparts
  | true =>
      rw [isIdle, Bool.or_eq_true, beq_iff_eq, beq_iff_eq] at hidle
      rcases hidle with rfl | rfl
      · cases ps with
        | nil => exact h (by simpa using eq_nil_of_pieces hps)
        | cons q ps => cases hlead
      · cases hlead

/-- **The pieces of a path that is continued by another** are pieces with the same parts, and those
of the other. -/
theorem exists_pieces_join (hp : p.text ≠ "") (hq : q.isAbsolute = false) :
    ∃ piece ps, pieces (p.join q).text.toList = piece :: ps ++ pieces q.text.toList ∧
      leadOf (piece :: ps ++ pieces q.text.toList) = leadOf (pieces p.text.toList) ∧
      partsOf (piece :: ps) = partsOf (pieces p.text.toList) := by
  have hne : pieces q.text.toList ≠ [] := pieces_ne_nil _
  rw [join, hq, if_neg (by simp)]
  split
  · rename_i hend
    -- the path ends with a slash, after which there is an empty piece
    have hslash : p.text.toList.getLast? = some '/' := by simpa [hp] using hend
    obtain ⟨cs, hcs⟩ := List.getLast?_eq_some_iff.1 hslash
    obtain ⟨piece, ps, hps⟩ := List.exists_cons_of_ne_nil (pieces_ne_nil cs)
    refine ⟨piece, ps, ?_, ?_, ?_⟩
    · rw [String.toList_append, hcs, List.append_assoc, List.singleton_append, pieces_append, hps]
    · rw [hcs, pieces_append, hps, List.cons_append, List.cons_append]
      exact leadOf_cons_congr fun _ => by simp [hne, pieces]
    · rw [hcs, pieces_append, hps, partsOf, partsOf, List.filterMap_append]
      exact (List.append_nil _).symm
  · obtain ⟨piece, ps, hps⟩ := List.exists_cons_of_ne_nil (pieces_ne_nil p.text.toList)
    refine ⟨piece, ps, ?_, ?_, by rw [hps]⟩
    · have htext : (p.text ++ "/" ++ q.text).toList = p.text.toList ++ '/' :: q.text.toList := by
        rw [String.toList_append, String.toList_append, List.append_assoc]
        rfl
      rw [htext, pieces_append, hps]
    · rw [hps, List.cons_append]
      refine leadOf_cons_congr fun hpiece => ?_
      have hmore : ps ≠ [] := by
        rintro rfl
        rw [hpiece] at hps
        exact hp (by simpa using eq_nil_of_pieces hps)
      simp [hmore, hne]

/-- **The parts of a path that is continued by another** are its own and the steps of the other. -/
theorem parts_join (hp : p.text ≠ "") (hq : q.isAbsolute = false) :
    (p.join q).parts = p.parts ++ partsOf (pieces q.text.toList) := by
  obtain ⟨piece, ps, hpieces, hlead, hparts⟩ := exists_pieces_join hp hq
  rw [parts_eq, parts_eq p, hpieces, hlead, List.append_assoc, ← hparts]
  exact congrArg _ List.filterMap_append

/-- A path that names make: it is relative, and these are its pieces and its steps. -/
theorem names_facts (hne : names ≠ []) (h : ∀ n ∈ names, IsStepName n) :
    Path.isAbsolute ⟨"/".intercalate names⟩ = false ∧
      pieces ("/".intercalate names).toList = names.map String.toList ∧
      partsOf (pieces ("/".intercalate names).toList) = names.map .name := by
  have hwritten : ∀ part ∈ names.map Part.name, part.IsWritten := by
    intro part hpart
    obtain ⟨n, hn, rfl⟩ := List.mem_map.1 hpart
    exact (h n hn).isWritten
  have hmap : names.map Part.name ≠ [] := by simpa using hne
  have hspellings : (names.map Part.name).map Part.spelling = names := by
    rw [List.map_map]
    exact List.map_id names
  have hpieces := pieces_spellings hmap hwritten
  have hrelative := isAbsolute_spellings hmap hwritten
  rw [hspellings] at hpieces hrelative
  refine ⟨hrelative, ?_, ?_⟩
  · rw [hpieces, List.map_map]
    rfl
  · rw [hpieces, partsOf_spellings hwritten]

/-- **The parts of a path that is continued by names.** -/
theorem parts_join_names (hp : p.text ≠ "") (hne : names ≠ []) (h : ∀ n ∈ names, IsStepName n) :
    (p.join ⟨"/".intercalate names⟩).parts = p.parts ++ names.map .name := by
  obtain ⟨hrelative, -, hparts⟩ := names_facts hne h
  rw [parts_join hp hrelative, hparts]

end Path

namespace FileTree

variable {t : FileTree} {here place l names : Location}

/-! ## Trees of files -/

/-- What holds of every tree of files: no place has two entries, the names that lead to a place are
steps of paths, and directories stand on the way to it. -/
structure WellFormed (t : FileTree) : Prop where
  distinct : t.Distinct
  names : ∀ e ∈ t.entries, ∀ n ∈ e.1, IsStepName n
  way : ∀ e ∈ t.entries, ∀ d ∈ beginnings e.1.dropLast, t.isDirectory d = true

instance (t : FileTree) : Decidable t.WellFormed :=
  decidable_of_iff
    (t.Distinct ∧ (∀ e ∈ t.entries, ∀ n ∈ e.1, IsStepName n) ∧
      ∀ e ∈ t.entries, ∀ d ∈ beginnings e.1.dropLast, t.isDirectory d = true)
    ⟨fun ⟨hdistinct, hnames, hway⟩ => ⟨hdistinct, hnames, hway⟩,
      fun ⟨hdistinct, hnames, hway⟩ => ⟨hdistinct, hnames, hway⟩⟩

/-- The names that lead to an entry from a directory, if it is a file below it. -/
def namesBelow? (l : Location) (e : Location × Entry) : Option Location :=
  match e.2 with
  | .file _ => if l.isPrefixOf e.1 && e.1.length != l.length then some (e.1.drop l.length) else none
  | .directory => none

/-- The files below a directory are found entry by entry. -/
theorem filesIn_eq (t : FileTree) (l : Location) :
    t.filesIn l = t.entries.filterMap (namesBelow? l) := rfl

/-- An entry below a directory. -/
theorem namesBelow?_eq_some {e : Location × Entry} : namesBelow? l e = some names ↔
    names ≠ [] ∧ ∃ c, e = (l ++ names, .file c) := by
  obtain ⟨k, e⟩ := e
  cases e with
  | directory => simp [namesBelow?]
  | file c =>
      constructor
      · intro h
        obtain ⟨hbelow, hnames⟩ := Option.ite_none_right_eq_some.1 h
        rw [Bool.and_eq_true, List.isPrefixOf_iff_prefix, bne_iff_ne] at hbelow
        obtain ⟨⟨rest, rfl⟩, hlength⟩ := hbelow
        obtain rfl : rest = names := by simpa using hnames
        exact ⟨fun hnil => hlength (by simp [hnil]), c, rfl⟩
      · rintro ⟨hne, c', heq⟩
        obtain ⟨rfl, -⟩ := Prod.mk.inj heq
        simp [namesBelow?, hne]

/-- **The files below a directory.** -/
theorem mem_filesIn : names ∈ t.filesIn l ↔
    names ≠ [] ∧ ∃ c, (l ++ names, .file c) ∈ t.entries := by
  rw [filesIn_eq, List.mem_filterMap]
  constructor
  · rintro ⟨e, he, hnames⟩
    obtain ⟨hne, c, rfl⟩ := namesBelow?_eq_some.1 hnames
    exact ⟨hne, c, he⟩
  · rintro ⟨hne, c, he⟩
    exact ⟨_, he, namesBelow?_eq_some.2 ⟨hne, c, rfl⟩⟩

/-- A file below a directory is found once. -/
theorem Distinct.nodup_filesIn (h : t.Distinct) (l : Location) : (t.filesIn l).Nodup := by
  rw [filesIn_eq]
  refine List.Pairwise.filterMap _ (fun e f hne a ha b hb hab => hne ?_) (List.pairwise_map.1 h)
  obtain ⟨-, c, rfl⟩ := namesBelow?_eq_some.1 ha
  obtain ⟨-, d, rfl⟩ := namesBelow?_eq_some.1 hb
  rw [hab]

/-- Where a directory is, there is something. -/
theorem has_of_isDirectory (hl : t.isDirectory l = true) : t.has l = true := by
  rw [isDirectory, beq_iff_eq] at hl
  rw [has, hl]
  rfl

/-- The empty path leads nowhere. -/
theorem text_ne_empty_of_resolve {p : Path} (h : t.resolve here p = .ok l) : p.text ≠ "" := by
  intro hempty
  rw [resolve, hempty] at h
  cases h

/-- An entry stands at every place that holds something but the root. -/
theorem exists_mem_entries (hne : l ≠ []) (hl : t.has l = true) : ∃ e, (l, e) ∈ t.entries := by
  rw [has, get?, if_neg (by simpa using hne), Option.isSome_iff_exists] at hl
  obtain ⟨e, he⟩ := hl
  obtain ⟨before, after, hentries, -⟩ := List.lookup_eq_some_iff.1 he
  exact ⟨e, by simp [hentries]⟩

namespace WellFormed

variable (h : t.WellFormed)

include h

/-- The file for an entry stands at its place. -/
theorem file?_eq_some (hne : l ≠ []) {c : Content} (he : (l, .file c) ∈ t.entries) :
    t.file? l = some c := by
  rw [file?, get?, List.isEmpty_eq_false_iff.2 hne, h.distinct.lookup_eq he]
  rfl

/-- The names that lead to a file below a directory are steps of paths. -/
theorem isStepName_of_mem_filesIn (hnames : names ∈ t.filesIn l) {n : String} (hn : n ∈ names) :
    IsStepName n := by
  obtain ⟨-, c, he⟩ := mem_filesIn.1 hnames
  exact h.names _ he n (List.mem_append_right _ hn)

/-- Directories stand on the way to a place. -/
theorem isDirectory_of_prefix {k d : Location} {e : Entry} (he : (k, e) ∈ t.entries)
    (hd : d <+: k) (hne : d ≠ k) : t.isDirectory d = true := by
  refine h.way _ he d (mem_beginnings.2 ?_)
  obtain ⟨rest, rfl⟩ := hd
  have hrest : rest ≠ [] := fun hrest => hne (by rw [hrest, List.append_nil])
  rw [List.dropLast_append_of_ne_nil hrest]
  exact List.prefix_append _ _

/-- Something stands at a place and on the way to it. -/
theorem has_of_prefix {k d : Location} {e : Entry} (he : (k, e) ∈ t.entries) (hd : d <+: k) :
    t.has d = true := by
  by_cases hne : d = k
  · subst hne
    rw [has, get?, h.distinct.lookup_eq he]
    split <;> rfl
  · exact has_of_isDirectory (h.isDirectory_of_prefix he hd hne)

/-- The directory that a directory lies in. -/
theorem isDirectory_dropLast (hl : t.isDirectory l = true) : t.isDirectory l.dropLast = true := by
  by_cases hne : l = []
  · subst hne
    rfl
  · obtain ⟨e, he⟩ := exists_mem_entries hne (has_of_isDirectory hl)
    refine h.isDirectory_of_prefix he (List.dropLast_prefix l) ?_
    intro heq
    have hlength := congrArg List.length heq
    have hpos := List.length_pos_iff.2 hne
    rw [List.length_dropLast] at hlength
    omega

/-- Where a part leads, there is something. -/
theorem has_of_follow {p : Part} {d : Location} (hfollow : t.follow d p = .ok l) :
    t.has l = true := by
  cases p with
  | root =>
      obtain rfl := Except.ok.inj hfollow
      rfl
  | current =>
      rw [follow] at hfollow
      split at hfollow
      · rename_i hdirectory
        obtain rfl := Except.ok.inj hfollow
        exact has_of_isDirectory hdirectory
      · cases hfollow
  | parent =>
      rw [follow] at hfollow
      split at hfollow
      · rename_i hdirectory
        obtain rfl := Except.ok.inj hfollow
        exact has_of_isDirectory (h.isDirectory_dropLast hdirectory)
      · cases hfollow
  | name n =>
      rw [follow] at hfollow
      split at hfollow
      · cases hfollow
      · split at hfollow
        · rename_i hhas
          obtain rfl := Except.ok.inj hfollow
          exact hhas
        · cases hfollow

/-- **Where a path leads**, there is something. -/
theorem has_of_resolve {p : Path} (hresolve : t.resolve here p = .ok l) : t.has l = true := by
  have hfold := foldlM_parts_of_resolve hresolve
  rcases List.eq_nil_or_concat' p.parts with hnil | ⟨front, last, hlast⟩
  · exact absurd hnil (Path.parts_ne_nil (text_ne_empty_of_resolve hresolve))
  · rw [hlast] at hfold
    obtain ⟨d, hfollow⟩ := exists_follow_of_foldlM hfold
    exact h.has_of_follow hfollow

/-- **Names lead on** to the place that they stand for. -/
theorem foldlM_follow {e : Entry} (he : (l ++ names, e) ∈ t.entries) :
    (names.map Part.name).foldlM t.follow l = .ok (l ++ names) := by
  induction names generalizing l with
  | nil => simp [pure, Except.pure]
  | cons n names ih =>
      have hdirectory := h.isDirectory_of_prefix he (List.prefix_append l (n :: names)) (by simp)
      rw [List.append_cons] at he ⊢
      have hhas := h.has_of_prefix he (List.prefix_append _ _)
      have hstep : t.follow l (.name n) = .ok (l ++ [n]) := by
        rw [follow, if_neg (by simp [hdirectory]), if_pos hhas]
      rw [List.map_cons, List.foldlM_cons, hstep]
      exact ih he

/-- **A path that is continued by names** leads to the place that they lead to. -/
theorem resolve_join {p : Path} (hplace : t.resolve here p = .ok place)
    (hnames : names ∈ t.filesIn place) :
    t.resolve here (p.join ⟨"/".intercalate names⟩) = .ok (place ++ names) := by
  have hsteps : ∀ n ∈ names, IsStepName n := fun n hn => h.isStepName_of_mem_filesIn hnames hn
  obtain ⟨hne, c, he⟩ := mem_filesIn.1 hnames
  have hp := text_ne_empty_of_resolve hplace
  have hparts := Path.parts_join_names hp hne hsteps
  obtain ⟨hrelative, hnamePieces, -⟩ := Path.names_facts hne hsteps
  obtain ⟨piece, ps, hpieces, -, -⟩ := Path.exists_pieces_join hp hrelative
  have hfold : (p.join ⟨"/".intercalate names⟩).parts.foldlM t.follow here =
      .ok (place ++ names) := by
    rw [hparts, List.foldlM_append, foldlM_parts_of_resolve hplace]
    exact h.foldlM_follow he
  -- the text does not end with a slash, since its last piece is a name
  have hlast : (pieces (p.join ⟨"/".intercalate names⟩).text.toList).getLast?.any isIdle =
      false := by
    obtain rfl | ⟨front, last, rfl⟩ := List.eq_nil_or_concat' names
    · exact absurd rfl hne
    rw [hpieces, hnamePieces, List.map_append, ← List.append_assoc, List.map_singleton,
      List.getLast?_concat]
    exact (hsteps last (by simp)).isWritten.not_isIdle
  have htext : (p.join ⟨"/".intercalate names⟩).text.isEmpty = false := by
    rw [← Bool.not_eq_true, String.isEmpty_iff]
    intro hempty
    rw [hempty] at hlast
    cases hlast
  rw [resolve, htext, hfold, hlast]
  rfl

end WellFormed

/-! ## Making places -/

/-- Without files, a tree is well-formed. -/
theorem wellFormed_empty : FileTree.empty.WellFormed := by decide

/-- Only the place at which something is put is new. -/
theorem mem_places_put {e : Entry} {k : Location} :
    k ∈ (t.put l e).entries.map Prod.fst ↔ k = l ∨ k ∈ t.entries.map Prod.fst := by
  rw [places_put]
  split
  · rename_i hl
    exact ⟨.inr, by rintro (rfl | hk); exacts [hl, hk]⟩
  · rw [List.mem_append, List.mem_singleton, or_comm]

/-- A directory stays one where nothing but a directory is put in its place. -/
theorem isDirectory_put (hl : l ≠ []) {e : Entry} {d : Location} (hd : t.isDirectory d = true)
    (he : d = l → e = .directory) : (t.put l e).isDirectory d = true := by
  rw [isDirectory, get?_put hl]
  split
  · rename_i hdl
    rw [he hdl]
    rfl
  · exact hd

namespace WellFormed

variable (h : t.WellFormed)

include h

/-- **Putting something below a directory** leaves a tree well-formed, if it is not a file that takes
the place of a directory. -/
theorem put (hl : l ≠ []) {e : Entry} (hsteps : ∀ n ∈ l, IsStepName n)
    (hway : ∀ d ∈ beginnings l.dropLast, t.isDirectory d = true)
    (he : t.isDirectory l = true → e = .directory) : (t.put l e).WellFormed := by
  -- every place is the new one or was there before
  have hplaces : ∀ f ∈ (t.put l e).entries, f.1 = l ∨ ∃ g ∈ t.entries, g.1 = f.1 := by
    intro f hf
    exact (mem_places_put.1 (List.mem_map_of_mem hf)).imp_right List.mem_map.1
  constructor
  case distinct => exact h.distinct.put l e
  case names =>
    intro f hf n hn
    rcases hplaces f hf with hfl | ⟨g, hg, hgf⟩
    · exact hsteps n (hfl ▸ hn)
    · exact h.names g hg n (hgf ▸ hn)
  case way =>
    intro f hf d hd
    have hdirectory : t.isDirectory d = true := by
      rcases hplaces f hf with hfl | ⟨g, hg, hgf⟩
      · exact hway d (hfl ▸ hd)
      · exact h.way g hg d (hgf ▸ hd)
    exact isDirectory_put hl hdirectory fun hdl => he (hdl ▸ hdirectory)

/-- **Making the directories on the way** to a place leaves a tree well-formed, and puts them there,
if nothing else stands in their way. -/
theorem foldl_put (hsteps : ∀ n ∈ l, IsStepName n)
    (hway : ∀ d ∈ beginnings l, t.has d = true → t.isDirectory d = true) :
    let u := (beginnings l).foldl (fun t d => if t.has d then t else t.put d .directory) t
    u.WellFormed ∧ (∀ d ∈ beginnings l, u.isDirectory d = true) ∧
      ∀ d ∉ beginnings l, u.get? d = t.get? d := by
  induction l using List.reverseRecOn with
  | nil => exact ⟨h, fun d hd => by obtain rfl := List.mem_singleton.1 hd; rfl, fun d _ => rfl⟩
  | append_singleton l n ih =>
      rw [beginnings_concat] at hway ⊢
      obtain ⟨hu, hdirectories, hothers⟩ := ih (fun m hm => hsteps m (List.mem_append_left _ hm))
        fun d hd => hway d (List.mem_append_left _ hd)
      simp only [List.foldl_append, List.foldl_cons, List.foldl_nil]
      generalize (beginnings l).foldl _ t = u at hu hdirectories hothers ⊢
      have hnew : l ++ [n] ∉ beginnings l := fun hmem => by
        have hle := (mem_beginnings.1 hmem).length_le
        rw [List.length_append, List.length_singleton] at hle
        omega
      have hget := hothers _ hnew
      by_cases hhas : u.has (l ++ [n]) = true
      · -- what stands there is a directory
        rw [if_pos hhas]
        refine ⟨hu, fun d hd => ?_, fun d hd => ?_⟩
        · rcases List.mem_append.1 hd with hd | hd
          · exact hdirectories d hd
          · obtain rfl := List.mem_singleton.1 hd
            rw [has, hget] at hhas
            rw [isDirectory, hget]
            exact hway _ (by simp) hhas
        · exact hothers d fun hmem => hd (List.mem_append_left _ hmem)
      · rw [if_neg hhas]
        have hne : l ++ [n] ≠ [] := by simp
        refine ⟨hu.put hne hsteps ?_ fun _ => rfl, fun d hd => ?_, fun d hd => ?_⟩
        · rwa [List.dropLast_concat]
        · rcases List.mem_append.1 hd with hd | hd
          · exact isDirectory_put hne (hdirectories d hd) fun _ => rfl
          · obtain rfl := List.mem_singleton.1 hd
            rw [isDirectory, get?_put hne, if_pos rfl]
            rfl
        · obtain ⟨hd, hdn⟩ := not_or.1 (mt List.mem_append.2 hd)
          rw [get?_put hne, if_neg (by simpa using hdn), hothers d hd]

/-- **Trees stay well-formed** when something is made below directories, if it is not a file that
takes the place of a directory. -/
theorem make (hl : l ≠ []) {e : Entry} (hsteps : ∀ n ∈ l, IsStepName n)
    (hway : ∀ d ∈ beginnings l.dropLast, t.has d = true → t.isDirectory d = true)
    (he : t.isDirectory l = true → e = .directory) : (t.make l e).WellFormed := by
  obtain ⟨hu, hdirectories, hothers⟩ := h.foldl_put
    (fun n hn => hsteps n (List.mem_of_mem_dropLast hn)) hway
  refine hu.put hl hsteps hdirectories fun hdirectory => he ?_
  have hnew : l ∉ beginnings l.dropLast := fun hmem => by
    have hle := (mem_beginnings.1 hmem).length_le
    have hpos := List.length_pos_of_ne_nil hl
    rw [List.length_dropLast] at hle
    omega
  rw [isDirectory] at hdirectory ⊢
  rwa [← hothers l hnew]

end WellFormed

end FileTree

end StyleAudit.Files
