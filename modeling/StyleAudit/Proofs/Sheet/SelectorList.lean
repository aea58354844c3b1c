import Mathlib
import StyleAudit.Proofs.Sheet.Seams

/-! # Selector lists

The head of a style rule is a gap, and then entries with a gap after each of them. A shorter list is
made from some of the entries with one gap between any two of them, and it is read as a list of these
entries again.

* **`Part`** — an entry as a forest, and the gap after it.
* **`exists_parts`** — the parts of the head of a style rule.
* **`Part.located`** — parts with the offsets that they begin at.
* **`bodyOf_join`** — parts one after the other are the head of a style rule.
* **`Part.Renewed`** — parts that are read as a selector list, with the entries of some others.
* **`exists_joined`** — entries with other gaps between them are read as entries again. -/

namespace StyleAudit.Sheet

open Text

/-! ## Parts of a head -/

/-- An entry of a selector list, and the gap after it. -/
structure Part where
  core : Forest
  gap : List Lexeme

/-- The text of an entry. -/
def Forest.entryText (core : Forest) : String := String.ofList (marksText false false (core.marks 0))

namespace Part

/-- Parts one after the other. -/
def join : List Part → Forest
  | [] => .nil
  | p :: ps => p.core ++ .tokens p.gap (join ps)

/-- The parts are those of a selector list: there is a comma in every gap but the last one. -/
def Listed : List Part → Prop
  | [] => True
  | p :: ps => IsCore (p.core.marks 0) ∧ (∀ l ∈ p.gap, l.Loose) ∧
      (ps ≠ [] → ∃ l ∈ p.gap, l.token = .comma) ∧ Listed ps

/-- The parts with the offsets that they begin at. -/
def located : (pos : Nat) → List Part → List (Nat × Part)
  | _, [] => []
  | pos, p :: ps => (pos, p) :: located (pos + p.core.size + byteSize (charsOf p.gap)) ps

/-- The entry of a part that begins at an offset. -/
def entry (x : Nat × Part) : Entry := ⟨x.2.core.entryText, ⟨x.1, x.1 + x.2.core.size⟩⟩

/-- The lexemes of parts. -/
@[simp] theorem lexemes_join_cons (p : Part) (ps : List Part) :
    (join (p :: ps)).lexemes = p.core.lexemes ++ (p.gap ++ (join ps).lexemes) := by
  rw [join, Forest.lexemes_append, Forest.lexemes_tokens]

/-- The characters of parts. -/
@[simp] theorem source_join_cons (p : Part) (ps : List Part) :
    (join (p :: ps)).source = p.core.source ++ (charsOf p.gap ++ (join ps).source) := by
  rw [join, Forest.source_append, Forest.source_tokens]

/-- **A part among others** stands where it is located. -/
theorem exists_lexemes_of_mem_located {pos : Nat} {ps : List Part} {x : Nat × Part}
    (h : x ∈ located pos ps) :
    ∃ a b, (join ps).lexemes = a ++ (x.2.core.lexemes ++ b) ∧ x.1 = pos + byteSize (charsOf a) ∧
      x.2 ∈ ps := by
  induction ps generalizing pos with
  | nil => simp [located] at h
  | cons p ps ih =>
      rw [lexemes_join_cons]
      rcases List.mem_cons.1 h with rfl | h
      · exact ⟨[], _, rfl, rfl, List.mem_cons_self⟩
      · obtain ⟨a, b, hlex, hpos, hmem⟩ := ih h
        refine ⟨p.core.lexemes ++ (p.gap ++ a), b, by simp [hlex], ?_, List.mem_cons_of_mem _ hmem⟩
        simp only [charsOf_append, Forest.charsOf_lexemes, byteSize_append,
          Forest.byteSize_source] at hpos ⊢
        omega

/-- **The last part** ends with its gap. -/
theorem exists_last (p : Part) (ps : List Part) (pos : Nat) :
    ∃ x rest, (located pos (p :: ps)).getLast? = some x ∧ x.2 ∈ p :: ps ∧
      (join (p :: ps)).source = (p.core.source ++ rest) ++ charsOf x.2.gap ∧
      (entry x).span.stop = pos + byteSize (p.core.source ++ rest) := by
  induction ps generalizing p pos with
  | nil =>
      refine ⟨(pos, p), [], rfl, by simp, by simp [join, Forest.source], ?_⟩
      rw [List.append_nil, Forest.byteSize_source]
      rfl
  | cons q ps ih =>
      obtain ⟨x, rest, hlast, hmem, hsource, hstop⟩ :=
        ih q (pos + p.core.size + byteSize (charsOf p.gap))
      refine ⟨x, charsOf p.gap ++ (q.core.source ++ rest), ?_, List.mem_cons_of_mem _ hmem, ?_, ?_⟩
      · rw [located, List.getLast?_cons, hlast, Option.getD_some]
      · rw [source_join_cons, hsource]
        simp
      · rw [hstop]
        simp only [byteSize_append, Forest.byteSize_source]
        omega

/-- The gaps of parts hold whitespace, comments and commas. -/
theorem loose_of_mem {ps : List Part} (h : Listed ps) {p : Part} (hp : p ∈ ps) {l : Lexeme}
    (hl : l ∈ p.gap) : l.Loose := by
  induction ps with
  | nil => simp at hp
  | cons q ps ih =>
      rcases List.mem_cons.1 hp with rfl | hp
      · exact h.2.1 l hl
      · exact ih h.2.2.2 hp

end Part

/-- The marks of tokens. -/
theorem Forest.marks_tokens (ls : List Lexeme) (f : Forest) (pos : Nat) :
    (Forest.tokens ls f).marks pos = marksAt pos ls ++ f.marks (pos + byteSize (charsOf ls)) := by
  induction ls generalizing pos with
  | nil => rfl
  | cons l ls ih =>
      change _ :: (Forest.tokens ls f).marks _ = _
      rw [ih, marksAt, charsOf_cons, byteSize_append, Nat.add_assoc]
      rfl

/-- Whether marks are an entry does not depend on their places. -/
theorem IsCore.of_bare {ms ms' : List Mark} (h : IsCore ms)
    (heq : ms'.map Mark.bare = ms.map Mark.bare) : IsCore ms' := by
  have hne : ms' ≠ [] := by
    rintro rfl
    exact h.ne_nil (List.map_eq_nil_iff.1 heq.symm)
  refine ⟨hne, fun m hm => ?_, ?_, ?_⟩
  · have hmem : m.bare ∈ ms.map Mark.bare := heq ▸ List.mem_map_of_mem hm
    obtain ⟨k, hk, hbare⟩ := List.mem_map.1 hmem
    rw [← m.kind_bare, ← hbare, Mark.kind_bare]
    exact h.no_comma k hk
  · have hhead : (ms'.head hne).bare = (ms.head h.ne_nil).bare := by
      have := congrArg List.head? heq
      simpa [List.head?_eq_some_head hne, List.head?_eq_some_head h.ne_nil] using this
    rw [← Mark.isSolid_bare, hhead, Mark.isSolid_bare]
    exact h.head_solid
  · have hlast : (ms'.getLast hne).bare = (ms.getLast h.ne_nil).bare := by
      have := congrArg List.getLast? heq
      simpa [List.getLast?_eq_some_getLast hne, List.getLast?_eq_some_getLast h.ne_nil] using this
    rw [← Mark.isSolid_bare, hlast, Mark.isSolid_bare]
    exact h.last_solid

/-- An entry is one wherever it stands. -/
theorem Forest.isCore_marks {core : Forest} {pos : Nat} (h : IsCore (core.marks pos)) (pos' : Nat) :
    IsCore (core.marks pos') :=
  h.of_bare (core.map_bare_marks pos' pos)

/-- The text of an entry is the same wherever it stands. -/
theorem Forest.entryText_eq (core : Forest) (pos : Nat) :
    core.entryText = String.ofList (marksText false false (core.marks pos)) := by
  rw [entryText, ← marksText_map_bare, core.map_bare_marks 0 pos, marksText_map_bare]

/-- An entry that is read again has the same text. -/
theorem Forest.Reread.entryText_eq {f f' : Forest} (h : f.Reread f') :
    f'.entryText = f.entryText := by
  rw [entryText, entryText, ← marksText_map_bare, h.marks_eq, marksText_map_bare]

/-- The entry of a forest. -/
theorem Forest.coreEntry_marks {core : Forest} {pos : Nat} (hne : ∀ l ∈ core.lexemes, l.chars ≠ [])
    (hcore : IsCore (core.marks pos)) (gap : List Lexeme) :
    coreEntry (core.marks pos) = Part.entry (pos, ⟨core, gap⟩) := by
  have hspan := span_coreEntry (run_marks hne pos) hcore
  rw [marksChars_marks, byteSize_source] at hspan
  rw [Part.entry, core.entryText_eq pos, ← hspan]
  rfl

/-- The marks of a gap are those of whitespace, comments and commas. -/
theorem Forest.exists_gap {g : Forest} {pos : Nat} {r : List Char} (hsplits : Splits g.lexemes r)
    (hproblems : g.problems pos = []) (h : IsGap (g.marks pos)) :
    ∃ gap, g = .tokens gap .nil ∧ ∀ l ∈ gap, l.Loose := by
  induction g generalizing pos with
  | nil => exact ⟨[], rfl, by simp⟩
  | token l rest ih =>
      rw [problems, List.append_eq_nil_iff, Token.problems_eq_nil_iff] at hproblems
      obtain ⟨gap, rfl, hgap⟩ := ih hsplits.2 hproblems.2 fun m hm => h m (by simp [marks, hm])
      -- what a gap cannot hold is solid or a problem
      have hkind : l.Dull ∨ l.token = .comma := by
        have hl := h (.ofLexeme l pos) (by simp [marks])
        have hcause := hproblems.1
        cases htoken : l.token with
        | comment terminated =>
            cases terminated with
            | true => exact .inl (.inr htoken)
            | false => simp [htoken, Token.cause?] at hcause
        | whitespace => exact .inl (.inl htoken)
        | comma => exact .inr rfl
        | _ =>
            simp [htoken, Mark.isGap, Mark.isSolid, Mark.ofLexeme, Mark.Kind.ofToken,
              Token.isVisible, Token.cause?] at hl hcause
      refine ⟨l :: gap, rfl, ?_⟩
      simpa using ⟨loose_of_kind (isSpace_or_reads_of_splits hsplits (by simp [lexemes])) hkind, hgap⟩
  | block o body closed rest =>
      have hblock := h (.ofBlock o body closed pos) (by simp [marks])
      simp [Mark.isGap, Mark.isSolid, Mark.ofBlock] at hblock

/-- A comma is the only token with the mark of a comma. -/
theorem Mark.Kind.ofToken_eq_comma_iff {t : Token} : Mark.Kind.ofToken t = .comma ↔ t = .comma := by
  cases t <;> simp [Mark.Kind.ofToken, Token.isVisible]

/-- A comma among the marks of lexemes is a comma among the lexemes. -/
theorem comma_mem_marksAt_iff {pos : Nat} {ls : List Lexeme} :
    (∃ m ∈ marksAt pos ls, m.kind = .comma) ↔ ∃ l ∈ ls, l.token = .comma := by
  induction ls generalizing pos with
  | nil => simp [marksAt]
  | cons l ls ih =>
      rw [marksAt, List.exists_mem_cons_iff, List.exists_mem_cons_iff, ih]
      exact or_congr_left Mark.Kind.ofToken_eq_comma_iff

/-- The marks of loose lexemes belong to no entry. -/
theorem isGap_marksAt {pos : Nat} {ls : List Lexeme} (h : ∀ l ∈ ls, l.Loose) :
    IsGap (marksAt pos ls) := by
  induction ls generalizing pos with
  | nil => simp [IsGap, marksAt]
  | cons l ls ih =>
      intro m hm
      rw [marksAt] at hm
      rcases List.mem_cons.1 hm with rfl | hm
      · rcases (h l (by simp)).kind with (hl | hl) | hl <;>
          simp [Mark.isGap, Mark.isSolid, Mark.ofLexeme, Mark.Kind.ofToken, hl, Token.isVisible]
      · exact ih (fun k hk => h k (by simp [hk])) m hm

/-- The parts of a stretch that is made of segments. -/
theorem exists_parts_of_segments {q : Forest} {pos : Nat} {r : List Char} {segments : List Segment}
    (hsplits : Splits q.lexemes r) (hproblems : q.problems pos = [])
    (hmarks : q.marks pos = segments.flatMap Segment.marks) (hseg : Spelled segments) :
    ∃ ps, q = Part.join ps ∧ Part.Listed ps ∧
      segments.map Segment.entry = (Part.located pos ps).map Part.entry := by
  induction segments generalizing q pos with
  | nil =>
      have hnil : q = .nil := by
        cases q with
        | nil => rfl
        | token | block => simp [Forest.marks] at hmarks
      exact ⟨[], hnil, trivial, rfl⟩
  | cons s segments ih =>
      obtain ⟨hcore, hgap, hcomma, hseg⟩ := hseg
      rw [List.flatMap_cons, Segment.marks, List.append_assoc] at hmarks
      obtain ⟨core, b, rfl, hcoreMarks, hb⟩ := Forest.exists_append_of_marks hmarks
      obtain ⟨g, rest, rfl, hgapMarks, hrest⟩ := Forest.exists_append_of_marks hb
      rw [Forest.lexemes_append, splits_append, Forest.lexemes_append, splits_append] at hsplits
      obtain ⟨hcoreSplits, hgapSplits, hrestSplits⟩ := hsplits
      rw [Forest.problems_append, Forest.problems_append, List.append_eq_nil_iff,
        List.append_eq_nil_iff] at hproblems
      obtain ⟨-, hgapProblems, hrestProblems⟩ := hproblems
      obtain ⟨ps, rfl, hlisted, hentries⟩ := ih hrestSplits hrestProblems hrest hseg
      rw [← hgapMarks] at hgap hcomma
      obtain ⟨gap, rfl, hloose⟩ := Forest.exists_gap hgapSplits hgapProblems hgap
      have hsize : (Forest.tokens gap .nil).size = byteSize (charsOf gap) := by
        rw [← Forest.byteSize_source, Forest.source_tokens]
        simp [Forest.source]
      rw [← hcoreMarks] at hcore
      refine ⟨⟨core, gap⟩ :: ps, ?_, ⟨Forest.isCore_marks hcore 0, hloose, fun hne => ?_, hlisted⟩, ?_⟩
      · rw [Part.join, ← Forest.tokens_eq_append]
      · -- a comma is due between any two segments, and there are as many parts
        have hne' : segments ≠ [] := by
          rintro rfl
          cases ps with
          | nil => exact hne rfl
          | cons p ps => simp [Part.located] at hentries
        have hmark := hcomma hne'
        rw [Forest.marks_tokens, Forest.marks, List.append_nil] at hmark
        exact comma_mem_marksAt_iff.1 hmark
      · have hchars : ∀ l ∈ core.lexemes, l.chars ≠ [] := fun l hl =>
          chars_ne_nil_of_splits hcoreSplits hl
        rw [hsize] at hentries
        rw [List.map_cons, Part.located, List.map_cons, hentries, Segment.entry, ← hcoreMarks,
          Forest.coreEntry_marks hchars hcore]

/-- **The head of a style rule** is a gap and then parts. -/
theorem exists_parts {q : Forest} {pos : Nat} {r : List Char} {lead : Entry} {others : List Entry}
    (hsplits : Splits q.lexemes r) (hproblems : q.problems pos = [])
    (hstyle : bodyOf (q.marks pos) = .style lead others) :
    ∃ gap ps, q = .tokens gap (Part.join ps) ∧ (∀ l ∈ gap, l.Loose) ∧ Part.Listed ps ∧
      lead :: others = (Part.located (pos + byteSize (charsOf gap)) ps).map Part.entry := by
  obtain ⟨gapMarks, segments, hmarks, hgap, hseg⟩ := exists_segments (q.marks pos)
  have hentries := (bodyOf_eq_style_iff.1 hstyle).2.1
  rw [hmarks, entries_segments hgap hseg] at hentries
  obtain ⟨g, rest, rfl, rfl, hrest⟩ := Forest.exists_append_of_marks hmarks
  rw [Forest.lexemes_append, splits_append] at hsplits
  rw [Forest.problems_append, List.append_eq_nil_iff] at hproblems
  obtain ⟨gap, rfl, hloose⟩ := Forest.exists_gap hsplits.1 hproblems.1 hgap
  obtain ⟨ps, rfl, hlisted, hparts⟩ :=
    exists_parts_of_segments hsplits.2 hproblems.2 hrest hseg
  have hsize : (Forest.tokens gap .nil).size = byteSize (charsOf gap) := by
    rw [← Forest.byteSize_source, Forest.source_tokens]
    simp [Forest.source]
  rw [hsize] at hparts
  exact ⟨gap, ps, (Forest.tokens_eq_append _ _).symm, hloose, hlisted, hentries.symm.trans hparts⟩

/-! ## Loose lexemes before a forest -/

/-- A loose lexeme is no bracket, no problem and no end of a statement. -/
theorem Lexeme.Loose.quiet {l : Lexeme} (h : l.Loose) :
    l.token.opens? = none ∧ l.token.closes? = none ∧ l.token.cause? = none ∧
      l.token ≠ .semicolon := by
  rcases h.kind with (hl | hl) | hl <;> rw [hl] <;> exact ⟨rfl, rfl, rfl, by simp⟩

/-- Loose lexemes before a head make a head. -/
theorem Forest.Flat.tokens {ls : List Lexeme} {f : Forest} (hls : ∀ l ∈ ls, l.Loose)
    (hf : f.Flat) : (Forest.tokens ls f).Flat := by
  induction ls with
  | nil => exact hf
  | cons l ls ih => exact ⟨(hls l (by simp)).quiet.2.2.2, ih fun k hk => hls k (by simp [hk])⟩

/-- Loose lexemes are no problems. -/
theorem Forest.problems_tokens {ls : List Lexeme} (hls : ∀ l ∈ ls, l.Loose) (f : Forest)
    (pos : Nat) : (Forest.tokens ls f).problems pos = f.problems (pos + byteSize (charsOf ls)) := by
  induction ls generalizing pos with
  | nil => rfl
  | cons l ls ih =>
      have hl : l.token.problems pos = [] :=
        Token.problems_eq_nil_iff.2 (hls l (by simp)).quiet.2.2.1
      change l.token.problems pos ++ (Forest.tokens ls f).problems _ = _
      rw [hl, ih fun k hk => hls k (by simp [hk]), charsOf_cons, byteSize_append, Nat.add_assoc]
      rfl

/-- Loose lexemes keep a forest balanced. -/
theorem Forest.Balanced.loose {ls : List Lexeme} {f : Forest} {within : Option Bracket}
    (hls : ∀ l ∈ ls, l.Loose) (hf : f.Balanced within) : (Forest.tokens ls f).Balanced within :=
  hf.tokens fun l hl => ⟨(hls l hl).quiet.1, (hls l hl).quiet.2.1⟩

/-! ## What parts spell -/

/-- The entries of parts. -/
theorem entries_join {ps : List Part} {pos : Nat} {r : List Char}
    (hsplits : Splits (Part.join ps).lexemes r) (h : Part.Listed ps) :
    entries ((Part.join ps).marks pos) = (Part.located pos ps).map Part.entry := by
  induction ps generalizing pos with
  | nil => rfl
  | cons p ps ih =>
      obtain ⟨hcore, hgap, hcomma, hlisted⟩ := h
      rw [Part.lexemes_join_cons, splits_append, splits_append] at hsplits
      have hcore' := Forest.isCore_marks hcore pos
      have hentry := Forest.coreEntry_marks
        (fun l hl => chars_ne_nil_of_splits hsplits.1 hl) hcore' p.gap
      rw [Part.join, Forest.marks_append, Forest.marks_tokens, Part.located, List.map_cons,
        ← ih hsplits.2.2 hlisted, ← hentry]
      by_cases hnil : ps = []
      · subst hnil
        rw [Part.join, Forest.marks, List.append_nil,
          entries_core_gap hcore' (isGap_marksAt hgap)]
        rfl
      · exact entries_core_append hcore' (isGap_marksAt hgap)
          (comma_mem_marksAt_iff.2 (hcomma hnil))

/-- Whether a statement is an at-rule is decided by the first comma or the first entry. -/
theorem atRule?_join {gap : List Lexeme} {p : Part} {ps : List Part} {pos : Nat}
    (hgap : ∀ l ∈ gap, l.Loose) (hcore : IsCore (p.core.marks 0)) :
    atRule? ((Forest.tokens gap (Part.join (p :: ps))).marks pos) = none ↔
      (∃ l ∈ gap, l.token = .comma) ∨ atRule? (p.core.marks 0) = none := by
  induction gap generalizing pos with
  | nil =>
      have hcore' := Forest.isCore_marks hcore pos
      have hhead : atRule? ((Part.join (p :: ps)).marks pos) = atRule? (p.core.marks pos) := by
        rw [Part.join, Forest.marks_append]
        obtain ⟨m, ms, hms⟩ := List.exists_cons_of_ne_nil hcore'.ne_nil
        have hsolid : m.isSolid = true := by simpa [hms] using hcore'.head_solid
        simp [atRule?, hms, hsolid]
      have hbare : atRule? (p.core.marks pos) = atRule? (p.core.marks 0) := by
        rw [← atRule?_map_bare, p.core.map_bare_marks pos 0, atRule?_map_bare]
      -- without a gap the first mark is that of the first entry
      change atRule? ((Part.join (p :: ps)).marks pos) = none ↔ _
      rw [hhead, hbare]
      simp
  | cons l gap ih =>
      have ih := @ih (pos + byteSize l.chars) fun k hk => hgap k (by simp [hk])
      change atRule? (.ofLexeme l pos :: (Forest.tokens gap (Part.join (p :: ps))).marks _) = none ↔ _
      by_cases hl : l.token = .comma
      · have hsolid : (Mark.ofLexeme l pos).isSolid = true ∧ (Mark.ofLexeme l pos).kind = .comma := by
          simp [Mark.isSolid, Mark.ofLexeme, Mark.Kind.ofToken, hl]
        simp [atRule?, hsolid.1, hsolid.2, hl]
      · have hdull : (Mark.ofLexeme l pos).isSolid = false := by
          rcases (hgap l (by simp)).kind with (hl' | hl') | hl'
          · simp [Mark.isSolid, Mark.ofLexeme, Mark.Kind.ofToken, hl']
          · simp [Mark.isSolid, Mark.ofLexeme, Mark.Kind.ofToken, hl', Token.isVisible]
          · exact absurd hl' hl
        rw [List.exists_mem_cons_iff, or_iff_right hl, ← ih]
        simp [atRule?, hdull]

/-- The entries of parts have the texts of their cores, wherever they stand. -/
theorem Part.map_text_located (pos : Nat) (ps : List Part) :
    ((Part.located pos ps).map Part.entry).map Entry.text = ps.map (·.core.entryText) := by
  induction ps generalizing pos with
  | nil => rfl
  | cons p ps ih =>
      rw [Part.located, List.map_cons, List.map_cons, List.map_cons, ih]
      rfl

/-- **Parts are the head of a style rule** when the first one does not make it anything else. -/
theorem bodyOf_join {gap : List Lexeme} {p : Part} {ps : List Part} {pos : Nat} {r : List Char}
    (hgap : ∀ l ∈ gap, l.Loose) (hsplits : Splits (Part.join (p :: ps)).lexemes r)
    (hlisted : Part.Listed (p :: ps))
    (hat : (∃ l ∈ gap, l.token = .comma) ∨ atRule? (p.core.marks 0) = none)
    (hstart : startsWith ['-', '-'] p.core.entryText.toList = false) :
    ∃ lead others, bodyOf ((Forest.tokens gap (Part.join (p :: ps))).marks pos) =
        .style lead others ∧
      (lead :: others).map Entry.text = (p :: ps).map (·.core.entryText) := by
  have hentries : entries ((Forest.tokens gap (Part.join (p :: ps))).marks pos) =
      (Part.located (pos + byteSize (charsOf gap)) (p :: ps)).map Part.entry := by
    rw [Forest.marks_tokens, entries_gap_append (isGap_marksAt hgap), entries_join hsplits hlisted]
  exact ⟨Part.entry (pos + byteSize (charsOf gap), p), _,
    bodyOf_eq_style_iff.2 ⟨(atRule?_join hgap hlisted.1).2 hat, hentries, hstart⟩,
    Part.map_text_located _ (p :: ps)⟩

/-! ## Joining entries again -/

/-- The forest is an entry of a selector list: it spells one, and it was read from a text. -/
structure Forest.IsEntry (within : Option Bracket) (core : Forest) : Prop where
  isCore : IsCore (core.marks 0)
  flat : core.Flat
  balanced : core.Balanced within
  problems : core.problems 0 = []
  reads : ∃ r, Splits core.lexemes r ∧ Stop r

/-- The parts of the head of a style rule hold entries. -/
theorem isEntry_of_mem {ps : List Part} {within : Option Bracket} {pos : Nat} {r : List Char}
    (hlisted : Part.Listed ps) (hflat : (Part.join ps).Flat)
    (hbalanced : (Part.join ps).Balanced within) (hproblems : (Part.join ps).problems pos = [])
    (hsplits : Splits (Part.join ps).lexemes ('{' :: r)) {p : Part} (hp : p ∈ ps) :
    p.core.IsEntry within := by
  induction ps generalizing pos with
  | nil => simp at hp
  | cons q ps ih =>
      obtain ⟨hcore, hgap, hcomma, hlisted⟩ := hlisted
      rw [Part.lexemes_join_cons, splits_append, splits_append, charsOf_append] at hsplits
      rw [Part.join, Forest.problems_append, Forest.problems_tokens hgap,
        List.append_eq_nil_iff] at hproblems
      rw [Part.join] at hflat hbalanced
      rcases List.mem_cons.1 hp with rfl | hp
      · refine ⟨hcore, hflat.of_append.1, hbalanced.of_append.1,
          Forest.problems_eq_nil _ hproblems.1 0, _, hsplits.1, ?_⟩
        rw [List.append_assoc]
        refine stop_gap hgap fun hnil => ?_
        -- without a gap nothing but the block follows
        have hlast : ps = [] := by
          by_contra hne
          obtain ⟨l, hl, -⟩ := hcomma hne
          simp [hnil] at hl
        subst hlast
        exact ⟨'{', r, rfl, rfl⟩
      · rw [Forest.tokens_eq_append] at hflat hbalanced
        exact ih hlisted hflat.of_append.2.of_append.2 hbalanced.of_append.2.of_append.2 hproblems.2
          hsplits.2.2 hp

/-- The last lexeme of a balanced forest is a closer, or has the last mark. -/
theorem Forest.closing_or_mark_of_getLast? {f : Forest} {within : Option Bracket}
    (hf : f.Balanced within) {l : Lexeme} (hl : f.lexemes.getLast? = some l) (pos : Nat) :
    (∃ b, l.token = .closing b) ∨ ∃ pos', (f.marks pos).getLast? = some (.ofLexeme l pos') := by
  induction f generalizing pos with
  | nil => simp [lexemes] at hl
  | token k rest ih =>
      by_cases hnil : rest = .nil
      · subst hnil
        obtain rfl : k = l := by simpa [lexemes] using hl
        exact .inr ⟨pos, rfl⟩
      · have hlast := List.getLast?_eq_some_getLast (lexemes_ne_nil hnil)
        have hrest : rest.lexemes.getLast? = some l := by
          rw [lexemes, List.getLast?_cons, hlast, Option.getD_some] at hl
          rw [hlast, hl]
        refine (ih hf.2.2 hrest (pos + byteSize k.chars)).imp_right ?_
        rintro ⟨pos', hmark⟩
        exact ⟨pos', by rw [marks, List.getLast?_cons, hmark]; rfl⟩
  | block o body closed rest _ ih =>
      obtain ⟨rfl, -, -, hrest⟩ := hf
      by_cases hnil : rest = .nil
      · subst hnil
        -- the block is the last statement, and it is closed
        refine .inl ⟨o.bracket, ?_⟩
        rw [lexemes, lexemes, List.append_nil, closerLexemes, if_pos rfl, ← List.cons_append,
          List.getLast?_append] at hl
        obtain rfl : closerOf o.bracket = l := by simpa using hl
        rfl
      · have hlast := List.getLast?_eq_some_getLast (lexemes_ne_nil hnil)
        have hrest' : rest.lexemes.getLast? = some l := by
          rw [lexemes, ← List.cons_append, ← List.append_assoc, List.getLast?_append, hlast,
            Option.some_or] at hl
          rw [hlast, hl]
        refine (ih hrest hrest' (pos + byteSize o.chars + body.size +
          byteSize (closerChars o true))).imp_right ?_
        rintro ⟨pos', hmark⟩
        exact ⟨pos', by rw [marks, List.getLast?_cons, hmark]; rfl⟩

/-- The last lexeme of an entry is solid. -/
theorem Forest.IsEntry.last {within : Option Bracket} {core : Forest} (h : core.IsEntry within)
    {l : Lexeme} (hl : core.lexemes.getLast? = some l) :
    l.token ≠ .whitespace ∧ l.token ≠ .badString := by
  rcases Forest.closing_or_mark_of_getLast? h.balanced hl 0 with ⟨b, hb⟩ | ⟨pos, hmark⟩
  · rw [hb]
    exact ⟨by simp, by simp⟩
  · have hsolid := h.isCore.last_solid
    rw [List.getLast?_eq_some_getLast h.isCore.ne_nil] at hmark
    rw [Option.some.inj hmark] at hsolid
    constructor <;> intro ht <;>
      simp [Mark.isSolid, Mark.ofLexeme, Mark.Kind.ofToken, ht, Token.isVisible] at hsolid

/-- Entries that are read again have the same texts. -/
theorem entryTexts_of_reread {cores : List Forest} {ps : List Part}
    (h : List.Forall₂ (fun c p => c.Reread p.core) cores ps) :
    ps.map (·.core.entryText) = cores.map Forest.entryText := by
  induction h with
  | nil => rfl
  | cons hc _ ih => rw [List.map_cons, List.map_cons, hc.entryText_eq, ih]

/-- Parts are read as a selector list before a text, and their entries are those of some cores. -/
structure Part.Renewed (within : Option Bracket) (r : List Char) (cores : List Forest)
    (ps : List Part) : Prop where
  reads : List.Forall₂ (fun c p => c.Reread p.core) cores ps
  listed : Part.Listed ps
  splits : Splits (Part.join ps).lexemes r
  flat : (Part.join ps).Flat
  balanced : (Part.join ps).Balanced within
  problems : (Part.join ps).problems 0 = []

namespace Part.Renewed

variable {within : Option Bracket} {r : List Char} {cores : List Forest} {ps : List Part}

/-- No part at all is a selector list. -/
theorem nil : Renewed within r [] [] :=
  ⟨.nil, trivial, trivial, trivial, trivial, rfl⟩

/-- One more entry before the parts of a selector list, with a gap that they allow. -/
theorem cons {c c' : Forest} {gap : List Lexeme} (h : Renewed within r cores ps)
    (hc : c.IsEntry within) (hreread : c.Reread c') (hgap : ∀ l ∈ gap, l.Loose)
    (hcomma : ps ≠ [] → ∃ l ∈ gap, l.token = .comma)
    (hsplits : Splits c'.lexemes (charsOf gap ++ ((join ps).source ++ r))) :
    Renewed within r (c :: cores) (⟨c', gap⟩ :: ps) where
  reads := .cons hreread h.reads
  listed := ⟨hc.isCore.of_bare hreread.marks_eq, hgap, hcomma, h.listed⟩
  splits := by
    rw [lexemes_join_cons, splits_append, splits_append, charsOf_append, Forest.charsOf_lexemes,
      List.append_assoc]
    exact ⟨hsplits, splits_free (fun l hl => (hgap l hl).free) _, h.splits⟩
  flat := (hreread.flat hc.flat).append (Forest.Flat.tokens hgap h.flat)
  balanced := (hreread.balanced _ hc.balanced).append (Forest.Balanced.loose hgap h.balanced)
  problems := by
    rw [join, Forest.problems_append, Forest.problems_tokens hgap, hreread.problems hc.problems,
      Forest.problems_eq_nil _ h.problems]
    rfl

end Part.Renewed

/-- **Entries with other gaps between them** are read as entries again. -/
theorem exists_joined {cores : List Forest} {within : Option Bracket} {sep tail : List Lexeme}
    (hcores : ∀ c ∈ cores, c.IsEntry within ∧
      ∀ l, c.lexemes.getLast? = some l → l.chars ≠ ['\\'])
    (hne : cores ≠ []) (hsep : ∀ l ∈ sep, l.Loose) (hcomma : ∃ l ∈ sep, l.token = .comma)
    (htail : ∀ l ∈ tail, l.Loose) (r : List Char) :
    ∃ ps, Part.Renewed within ('{' :: r) cores ps ∧
      (Part.join ps).source =
        (charsOf sep).intercalate (cores.map Forest.source) ++ charsOf tail := by
  induction cores with
  | nil => exact absurd rfl hne
  | cons c cores ih =>
      obtain ⟨hc, hlone⟩ := hcores c (by simp)
      obtain ⟨r₀, hsplits, hr₀⟩ := hc.reads
      by_cases hnil : cores = []
      · -- the tail follows the last entry, and then the block
        subst hnil
        obtain ⟨c', gap, hreread, hsource, hgap, -, hsplits'⟩ :=
          Forest.exists_reread_gap hc.balanced hsplits hr₀ htail (.inr ⟨r, rfl⟩) fun l hl =>
            ⟨(hc.last hl).1, (hc.last hl).2, fun h => absurd h (hlone l hl)⟩
        refine ⟨[⟨c', gap⟩], Part.Renewed.nil.cons hc hreread hgap (by simp) hsplits', ?_⟩
        simp [Part.join, Forest.source, List.intercalate, hsource]
      · -- the separator follows, whose comma holds it, and then the other entries
        obtain ⟨ps, hps, hsource⟩ := ih (fun d hd => hcores d (by simp [hd])) hnil
        have hheld : Held sep ((Part.join ps).source ++ '{' :: r) := .inl hcomma
        obtain ⟨c', gap, hreread, hsource', hgap, hcomma', hsplits'⟩ :=
          Forest.exists_reread_gap hc.balanced hsplits hr₀ hsep hheld fun l hl =>
              ⟨(hc.last hl).1, (hc.last hl).2, fun h => absurd h (hlone l hl)⟩
        refine ⟨⟨c', gap⟩ :: ps, hps.cons hc hreread hgap (fun _ => hcomma' hcomma) hsplits', ?_⟩
        obtain ⟨d, ds, rfl⟩ := List.exists_cons_of_ne_nil hnil
        rw [Part.source_join_cons, ← List.append_assoc, hsource', hsource]
        simp [List.intercalate]

end StyleAudit.Sheet
