import Mathlib
import StyleAudit.Files.Path

/-! # Paths as seen from a directory

A path below a directory is told apart from all others below it by what is left of it when the
directory is taken away: the parts of the path are those of the directory and those of the rest.

* **`pieces_intercalate`** — pieces that are joined by slashes are read back.
* **`intercalate_append`** — texts that are joined in two groups.
* **`Path.parts_trimEnd`** — the end of a path that says nothing does not change its parts.
* **`Path.parts_eq_append_within`** — the parts of a path below a directory. -/

namespace StyleAudit.Files

/-! ## Pieces -/

/-- There is always a piece. -/
theorem pieces_ne_nil (cs : List Char) : pieces cs ≠ [] := by
  cases cs with
  | nil => simp [pieces]
  | cons c cs =>
      rw [pieces]
      split
      · simp
      · split <;> simp

/-- The pieces of a text hold no slash. -/
theorem slash_not_mem_pieces {cs piece : List Char} (h : piece ∈ pieces cs) : '/' ∉ piece := by
  induction cs generalizing piece with
  | nil =>
      rw [pieces, List.mem_singleton] at h
      simp [h]
  | cons c cs ih =>
      obtain ⟨p, ps, hps⟩ := List.exists_cons_of_ne_nil (pieces_ne_nil cs)
      rw [pieces] at h
      split at h
      · rcases List.mem_cons.1 h with rfl | h
        · simp
        · exact ih h
      · rename_i hc
        rw [hps] at h ih
        rcases List.mem_cons.1 h with rfl | h
        · have := ih List.mem_cons_self
          simp [Ne.symm hc, this]
        · exact ih (List.mem_cons_of_mem _ h)

/-- A piece in front of a slash. -/
theorem pieces_append_slash {piece : List Char} (h : '/' ∉ piece) (cs : List Char) :
    pieces (piece ++ '/' :: cs) = piece :: pieces cs := by
  induction piece with
  | nil => rw [List.nil_append, pieces, if_pos rfl]
  | cons c piece ih =>
      have hc : c ≠ '/' := fun hc => h (by simp [hc])
      rw [List.cons_append, pieces, if_neg hc, ih fun hmem => h (by simp [hmem])]

/-- A text without a slash is one piece. -/
theorem pieces_of_not_mem {piece : List Char} (h : '/' ∉ piece) : pieces piece = [piece] := by
  induction piece with
  | nil => rfl
  | cons c piece ih =>
      have hc : c ≠ '/' := fun hc => h (by simp [hc])
      rw [pieces, if_neg hc, ih fun hmem => h (by simp [hmem])]

/-- **Pieces that are joined by slashes are read back.** -/
theorem pieces_intercalate {ps : List (List Char)} (hne : ps ≠ []) (h : ∀ p ∈ ps, '/' ∉ p) :
    pieces (['/'].intercalate ps) = ps := by
  induction ps with
  | nil => exact absurd rfl hne
  | cons p ps ih =>
      cases ps with
      | nil =>
          have hjoin : ['/'].intercalate [p] = p := by simp [List.intercalate]
          rw [hjoin, pieces_of_not_mem (h p (by simp))]
      | cons q ps =>
          have hjoin : ['/'].intercalate (p :: q :: ps) =
              p ++ '/' :: ['/'].intercalate (q :: ps) := by
            simp [List.intercalate]
          rw [hjoin, pieces_append_slash (h p (by simp)),
            ih (by simp) fun r hr => h r (by simp [hr])]

/-- Texts with something between them, in two groups. -/
theorem intercalate_append (s : String) {a b : List String} (ha : a ≠ []) (hb : b ≠ []) :
    s.intercalate (a ++ b) = s.intercalate a ++ s ++ s.intercalate b := by
  induction a with
  | nil => exact absurd rfl ha
  | cons n a ih =>
      obtain ⟨m, b, rfl⟩ := List.exists_cons_of_ne_nil hb
      cases a with
      | nil =>
          rw [List.singleton_append, String.intercalate_cons_cons, String.intercalate_singleton]
      | cons k a =>
          have hrest := ih (List.cons_ne_nil k a)
          rw [List.cons_append] at hrest
          rw [List.cons_append, List.cons_append, String.intercalate_cons_cons, hrest,
            String.intercalate_cons_cons]
          simp only [String.append_assoc]

/-! ## Parts -/

/-- The parts that pieces stand for. -/
def partsOf (ps : List (List Char)) : List Part := ps.filterMap Part.ofPiece?

/-- A piece that says nothing stands for no part. -/
theorem ofPiece?_of_isIdle {piece : List Char} (h : isIdle piece = true) :
    Part.ofPiece? piece = none := by
  rw [Part.ofPiece?, if_pos h]

/-- A piece that says something stands for a step. -/
theorem exists_ofPiece? {piece : List Char} (h : isIdle piece = false) :
    ∃ part, Part.ofPiece? piece = some part ∧ part.isStep = true := by
  rw [Part.ofPiece?, if_neg (by simp [h])]
  split
  · exact ⟨.parent, rfl, rfl⟩
  · exact ⟨_, rfl, rfl⟩

/-- The parts of pieces are steps. -/
theorem isStep_of_mem_partsOf {ps : List (List Char)} {part : Part} (h : part ∈ partsOf ps) :
    part.isStep = true := by
  obtain ⟨piece, -, hpiece⟩ := List.mem_filterMap.1 h
  cases hidle : isIdle piece with
  | true => simp [ofPiece?_of_isIdle hidle] at hpiece
  | false =>
      obtain ⟨part', hpart, hstep⟩ := exists_ofPiece? hidle
      rw [hpart, Option.some.injEq] at hpiece
      rwa [← hpiece]

/-- Pieces at the start that say nothing do not show in the parts. -/
theorem partsOf_dropWhile (ps : List (List Char)) : partsOf (ps.dropWhile isIdle) = partsOf ps := by
  induction ps with
  | nil => rfl
  | cons p ps ih =>
      rw [List.dropWhile_cons]
      split
      · rename_i hp
        rw [ih, partsOf, partsOf, List.filterMap_cons, ofPiece?_of_isIdle hp]
      · rfl

/-- Pieces at the end that say nothing do not show in the parts. -/
theorem partsOf_trimPieces (ps : List (List Char)) :
    partsOf (Path.trimPieces ps) = partsOf ps := by
  have h := partsOf_dropWhile ps.reverse
  rw [partsOf, partsOf, List.filterMap_reverse] at h
  rw [Path.trimPieces, partsOf, List.filterMap_reverse, h, List.reverse_reverse, partsOf]

/-- Dropping the pieces of some parts drops these parts. -/
theorem partsOf_dropPieces (n : Nat) (ps : List (List Char)) :
    partsOf (Path.dropPieces n ps) = (partsOf ps).drop n := by
  induction ps generalizing n with
  | nil => cases n <;> simp [Path.dropPieces, partsOf]
  | cons p ps ih =>
      cases n with
      | zero => simp [Path.dropPieces]
      | succ n =>
          rw [Path.dropPieces]
          cases hidle : isIdle p with
          | true =>
              rw [if_pos rfl, ih, partsOf, partsOf, List.filterMap_cons, ofPiece?_of_isIdle hidle]
          | false =>
              obtain ⟨part, hpart, -⟩ := exists_ofPiece? hidle
              rw [if_neg (by simp), ih, partsOf, partsOf, List.filterMap_cons, hpart]
              rfl

/-- Where a path with the given pieces begins: at the root, at a dot, or with its first step. -/
def leadOf : List (List Char) → List Part
  | [] :: _ :: _ => [.root]
  | ['.'] :: _ => [.current]
  | _ => []

/-- Where a path begins is no step. -/
theorem leadOf_cases (ps : List (List Char)) :
    leadOf ps = [] ∨ ∃ part, leadOf ps = [part] ∧ part.isStep = false := by
  unfold leadOf
  split
  · exact .inr ⟨.root, rfl, rfl⟩
  · exact .inr ⟨.current, rfl, rfl⟩
  · exact .inl rfl

/-- A path whose first piece says something begins with a step. -/
theorem leadOf_cons_of_not_isIdle {piece : List Char} (h : isIdle piece = false)
    (ps : List (List Char)) : leadOf (piece :: ps) = [] := by
  simp only [isIdle, Bool.or_eq_false_iff, beq_eq_false_iff_ne] at h
  unfold leadOf
  split
  · rename_i heq
    exact absurd (List.cons.inj heq).1 h.1
  · rename_i heq
    exact absurd (List.cons.inj heq).1 h.2
  · rfl

/-- Where a path begins depends on its first piece, and on whether a slash follows it. -/
theorem leadOf_cons_congr {piece : List Char} {ps qs : List (List Char)}
    (h : piece = [] → (ps = [] ↔ qs = [])) : leadOf (piece :: ps) = leadOf (piece :: qs) := by
  by_cases hnil : piece = []
  · subst hnil
    cases ps with
    | nil => rw [(h rfl).1 rfl]
    | cons p ps =>
        cases qs with
        | nil => simpa using (h rfl).2 rfl
        | cons q qs => rfl
  · by_cases hdot : piece = ['.']
    · subst hdot
      rfl
    · have hidle : isIdle piece = false := by simp [isIdle, hnil, hdot]
      rw [leadOf_cons_of_not_isIdle hidle, leadOf_cons_of_not_isIdle hidle]

namespace Path

variable {p base : Path}

/-- **The parts of a path**: where it begins, and its steps. -/
theorem parts_eq (p : Path) :
    p.parts = leadOf (pieces p.text.toList) ++ partsOf (pieces p.text.toList) := by
  rw [parts, isAbsolute, partsOf]
  cases p.text.toList with
  | nil => rfl
  | cons c cs =>
      obtain ⟨piece, ps, hps⟩ := List.exists_cons_of_ne_nil (pieces_ne_nil cs)
      by_cases hc : c = '/'
      · simp [pieces, hc, hps, leadOf]
      · have hhead : (some c == some '/') = false := by simpa using hc
        simp only [List.head?_cons, hhead, Bool.false_eq_true, if_false, pieces, if_neg hc, hps]
        unfold leadOf
        split
        · rename_i heq
          simp [(List.cons.inj heq).1]
        · rename_i hdot
          split
          · rename_i heq
            simp at heq
          · rename_i heq
            exact absurd heq (hdot _)
          · rfl

/-- The parts of a path that is put together from pieces. -/
theorem parts_intercalate {ps : List (List Char)} (hne : ps ≠ []) (h : ∀ piece ∈ ps, '/' ∉ piece) :
    Path.parts ⟨String.ofList (['/'].intercalate ps)⟩ = leadOf ps ++ partsOf ps := by
  rw [parts_eq, String.toList_ofList, pieces_intercalate hne h]

/-- The pieces up to the last one that says something begin the pieces. -/
theorem trimPieces_le (ps : List (List Char)) : trimPieces ps <+: ps := by
  have h : ps.reverse.dropWhile isIdle <:+ ps.reverse := List.dropWhile_suffix _
  rwa [← List.reverse_prefix, List.reverse_reverse] at h

/-- Dropping pieces leaves an end of them. -/
theorem dropPieces_suffix (n : Nat) (ps : List (List Char)) : dropPieces n ps <:+ ps := by
  induction ps generalizing n with
  | nil => cases n <;> exact List.suffix_refl _
  | cons piece ps ih =>
      cases n with
      | zero => exact List.suffix_refl _
      | succ n =>
          rw [dropPieces]
          split
          · exact (ih _).trans (List.suffix_cons piece ps)
          · exact (ih _).trans (List.suffix_cons piece ps)

/-- An absolute path begins with an empty piece and a slash. -/
theorem isAbsolute_iff : p.isAbsolute = true ↔
    ∃ piece ps, pieces p.text.toList = [] :: piece :: ps := by
  rw [isAbsolute]
  cases p.text.toList with
  | nil => simp [pieces]
  | cons c cs =>
      obtain ⟨piece, ps, hps⟩ := List.exists_cons_of_ne_nil (pieces_ne_nil cs)
      by_cases hc : c = '/'
      · simp [pieces, hc, hps]
      · simp [pieces, hc, hps]

/-- **The end of a path that says nothing** does not change its parts. -/
theorem parts_trimEnd (p : Path) : p.trimEnd.parts = p.parts := by
  obtain ⟨first, tail, hps⟩ := List.exists_cons_of_ne_nil (pieces_ne_nil p.text.toList)
  have htail : partsOf (trimPieces tail) = partsOf tail := partsOf_trimPieces tail
  have hslash : ∀ piece ∈ first :: trimPieces tail, '/' ∉ piece := by
    intro piece hpiece
    have hmem : piece ∈ pieces p.text.toList := by
      rw [hps]
      rcases List.mem_cons.1 hpiece with rfl | hpiece
      · exact List.mem_cons_self
      · exact List.mem_cons_of_mem _ ((trimPieces_le _).subset hpiece)
    exact slash_not_mem_pieces hmem
  rw [parts_eq p, trimEnd]
  simp only [hps, List.tail_cons, List.take_succ_cons, List.take_zero, List.singleton_append,
    Bool.and_eq_true, List.isEmpty_iff]
  by_cases habsolute : p.isAbsolute = true
  · obtain ⟨piece, ps, hroot⟩ := isAbsolute_iff.1 habsolute
    obtain ⟨rfl, rfl⟩ := List.cons.inj (hps.symm.trans hroot)
    -- of an absolute path the root is kept, even if nothing else says something
    by_cases hrest : trimPieces (piece :: ps) = []
    · rw [if_pos ⟨hrest, habsolute⟩]
      rw [hrest] at htail
      have hnone : partsOf ([] :: piece :: ps) = [] := htail.symm
      rw [hnone]
      rfl
    · have hlead : leadOf ([] :: trimPieces (piece :: ps)) = leadOf ([] :: piece :: ps) :=
        leadOf_cons_congr fun _ => ⟨fun h => absurd h hrest, by simp⟩
      rw [if_neg fun h => hrest h.1, parts_intercalate (by simp) hslash, hlead]
      exact congrArg _ htail
  · -- a relative path with an empty first piece is the empty path
    have hlead : leadOf (first :: trimPieces tail) = leadOf (first :: tail) := by
      refine leadOf_cons_congr fun hfirst => ?_
      have hnil : tail = [] := by
        by_contra hne
        obtain ⟨piece, ps, rfl⟩ := List.exists_cons_of_ne_nil hne
        exact habsolute (isAbsolute_iff.2 ⟨piece, ps, by rw [hps, hfirst]⟩)
      simp [hnil, trimPieces]
    rw [if_neg fun h => habsolute h.2, parts_intercalate (by simp) hslash, hlead]
    simp only [partsOf, List.filterMap_cons] at htail ⊢
    rw [htail]

/-- The parts of what is left of a path after some of its names. -/
theorem parts_dropNames (p : Path) (n : Nat) :
    (p.dropNames n).parts = (partsOf (pieces p.text.toList)).drop n := by
  rw [← partsOf_dropPieces, ← partsOf_dropWhile, ← partsOf_trimPieces, dropNames]
  have hfirst := List.head?_dropWhile_not isIdle (dropPieces n (pieces p.text.toList))
  have hmem : ∀ piece ∈ trimPieces ((dropPieces n (pieces p.text.toList)).dropWhile isIdle),
      piece ∈ pieces p.text.toList := by
    intro piece hpiece
    exact (dropPieces_suffix n _).subset
      ((List.dropWhile_suffix _).subset ((trimPieces_le _).subset hpiece))
  obtain ⟨tail, htail⟩ := trimPieces_le ((dropPieces n (pieces p.text.toList)).dropWhile isIdle)
  cases hrest : trimPieces ((dropPieces n (pieces p.text.toList)).dropWhile isIdle) with
  | nil => rfl
  | cons first rest =>
      -- what is left begins with a piece that says something
      rw [hrest] at hmem htail
      rw [← htail] at hfirst
      rw [parts_intercalate (by simp) fun piece hpiece => slash_not_mem_pieces (hmem piece hpiece),
        leadOf_cons_of_not_isIdle hfirst, List.nil_append]

/-- **The parts of a path below a directory** are those of the directory and those of the rest. -/
theorem parts_eq_append_within (h : base.parts <+: p.parts) :
    p.parts = base.parts ++ (base.within p).parts := by
  have hbelow : base.parts.isPrefixOf p.parts = true := List.isPrefixOf_iff_prefix.2 h
  rw [within]
  simp only [hbelow, if_true]
  by_cases hnil : base.parts = []
  · simp only [hnil, List.isEmpty_nil, if_true, List.nil_append, parts_trimEnd]
  · obtain ⟨rest, hrest⟩ := h
    rw [if_neg (by simpa using hnil), parts_dropNames, ← hrest]
    congr 1
    have hparts := hrest.trans p.parts_eq
    have hsteps : ∀ {part : Part}, part ∈ partsOf (pieces p.text.toList) → part.isStep = true :=
      isStep_of_mem_partsOf
    rcases leadOf_cases (pieces p.text.toList) with hlead | ⟨part, hlead, hpart⟩
    · -- every part of the directory is a step
      rw [hlead, List.nil_append] at hparts
      rw [← hparts] at hsteps ⊢
      have hall : base.parts.countP Part.isStep = base.parts.length :=
        List.countP_eq_length.2 fun part hmem => hsteps (List.mem_append_left _ hmem)
      rw [hall, List.drop_left]
    · -- the first part of the directory is where both paths begin
      obtain ⟨first, steps, hbase⟩ := List.exists_cons_of_ne_nil hnil
      rw [hbase, hlead, List.cons_append, List.singleton_append] at hparts
      obtain ⟨rfl, htail⟩ := List.cons.inj hparts
      rw [← htail] at hsteps ⊢
      have hall : steps.countP Part.isStep = steps.length :=
        List.countP_eq_length.2 fun part hmem => hsteps (List.mem_append_left _ hmem)
      rw [hbase, List.countP_cons_of_neg (by simp [hpart]), hall, List.drop_left]

/-- Paths below a directory that look alike from there have the same parts. -/
theorem parts_eq_of_within_eq {q : Path} (hp : base.parts <+: p.parts)
    (hq : base.parts <+: q.parts) (h : (base.within p).text = (base.within q).text) :
    p.parts = q.parts := by
  have heq : base.within p = base.within q := congrArg Path.mk h
  rw [parts_eq_append_within hp, parts_eq_append_within hq, heq]

end Path

end StyleAudit.Files
