import Mathlib
import StyleAudit.Proofs.Sheet.Blocks
import StyleAudit.Proofs.Sheet.Entries

/-! # How whitespace is cut up does not matter

A text that is put together from pieces may have whitespace at the end of one piece and at the start
of the next. Its lexemes then have one whitespace token where the pieces have two. The outline
of a text is the same for both.

* **`Forest.joinSpaces`** — a forest with neighbouring whitespace joined.
* **`readLevels_joinSpaces`** — blocks are read alike before and after whitespace is joined.
* **`outlineFrom_joinSpaces`** — joining whitespace leaves an outline as it is.
* **`ofChars_charsOf`**, **`ofChars_source`** — the outline of a text that is put together from
  lexemes, or from a forest. -/

namespace StyleAudit.Sheet

open Text

/-! ## Joining whitespace in forests -/

/-- Joins neighbouring whitespace of a forest. -/
def Forest.joinSpaces : Forest → Forest
  | .nil => .nil
  | .token l rest =>
      match rest.joinSpaces with
      | .token m tail =>
          if l.token = .whitespace ∧ m.token = .whitespace then
            .token ⟨.whitespace, l.chars ++ m.chars⟩ tail
          else .token l (.token m tail)
      | f => .token l f
  | .block o body closed rest => .block o body.joinSpaces closed rest.joinSpaces

/-- What joining makes of a token: it stays, or it is joined with whitespace that follows. -/
theorem Forest.joinSpaces_token_cases (l : Lexeme) (rest : Forest) :
    (Forest.token l rest).joinSpaces = .token l rest.joinSpaces ∨
      ∃ m tail, rest.joinSpaces = .token m tail ∧ l.token = .whitespace ∧ m.token = .whitespace ∧
        (Forest.token l rest).joinSpaces = .token ⟨.whitespace, l.chars ++ m.chars⟩ tail := by
  rw [joinSpaces]
  split
  · rename_i m tail hrest
    split
    · rename_i h
      exact .inr ⟨m, tail, hrest, h.1, h.2, rfl⟩
    · exact .inl (by rw [hrest])
  · exact .inl rfl

/-- Whitespace opens no block and closes none. -/
theorem not_whitespace_of_opens {t : Token} {b : Bracket} (h : t.opens? = some b) :
    t ≠ .whitespace := by
  rintro rfl
  simp [Token.opens?] at h

/-- A lexeme stays apart from what follows unless both are whitespace. -/
theorem joinSpaces_cons_of_apart {l : Lexeme} {ls : List Lexeme}
    (h : ¬ (l.token = .whitespace ∧ ∃ m ms, joinSpaces ls = m :: ms ∧ m.token = .whitespace)) :
    joinSpaces (l :: ls) = l :: joinSpaces ls := by
  rw [joinSpaces]
  split
  · rename_i m ms hls
    rw [if_neg fun hspace => h ⟨hspace.1, m, ms, hls, hspace.2⟩, hls]
  · rename_i hls
    rw [hls]

/-- A lexeme that is no whitespace stays apart from what follows. -/
theorem joinSpaces_cons_of_ne {l : Lexeme} (h : l.token ≠ .whitespace) (ls : List Lexeme) :
    joinSpaces (l :: ls) = l :: joinSpaces ls :=
  joinSpaces_cons_of_apart fun hspace => h hspace.1

/-- Joins neighbouring whitespace of a level. -/
def Level.joinSpaces (level : Level) : Level := ⟨level.contents.joinSpaces, level.closed⟩

/-- A token that begins the innermost level is the first lexeme. -/
theorem exists_cons_of_readLevels {pending : List Bracket} {ls : List Lexeme} {m : Lexeme}
    {tail : Forest} {closed : Bool} {levels : List Level}
    (h : readLevels pending ls = ⟨.token m tail, closed⟩ :: levels) : ∃ ms, ls = m :: ms := by
  cases ls with
  | nil => simp [readLevels] at h
  | cons l ls =>
      rcases token_cases l pending with ⟨b, hb⟩ | ⟨b, outer, rfl, hb⟩ | ⟨hopen, hclose⟩
      · obtain ⟨inner, outer, levels', heq⟩ := exists_readLevels_cons b pending ls
        rw [readLevels_open hb heq] at h
        simp at h
      · rw [readLevels_close hb] at h
        simp at h
      · obtain ⟨level, levels', heq⟩ := exists_readLevels pending ls
        rw [readLevels_token hopen hclose heq] at h
        simp only [List.cons.injEq, Level.mk.injEq, Forest.token.injEq] at h
        exact ⟨ls, by rw [h.1.1.1]⟩

/-- **Blocks are read alike** before and after whitespace is joined. -/
theorem readLevels_joinSpaces (pending : List Bracket) (ls : List Lexeme) :
    readLevels pending (joinSpaces ls) = (readLevels pending ls).map Level.joinSpaces := by
  induction ls generalizing pending with
  | nil => simp [joinSpaces, readLevels, Level.joinSpaces, Forest.joinSpaces]
  | cons l ls ih =>
      rcases token_cases l pending with ⟨b, hb⟩ | ⟨b, outer, rfl, hb⟩ | ⟨hopen, hclose⟩
      · obtain ⟨inner, outer, levels, heq⟩ := exists_readLevels_cons b pending ls
        have ih := ih (b :: pending)
        rw [heq] at ih
        rw [joinSpaces_cons_of_ne (not_whitespace_of_opens hb), readLevels_open hb heq,
          readLevels_open hb ih]
        rfl
      · rw [joinSpaces_cons_of_ne (by simp [hb]), readLevels_close hb, readLevels_close hb, ih]
        rfl
      · obtain ⟨level, levels, heq⟩ := exists_readLevels pending ls
        have ih := ih pending
        rw [heq, List.map_cons] at ih
        rw [readLevels_token hopen hclose heq, List.map_cons]
        by_cases hmerge : l.token = .whitespace ∧
            ∃ m ms, joinSpaces ls = m :: ms ∧ m.token = .whitespace
        · -- the first lexeme that is left is joined with `l`, and so is the token that it becomes
          obtain ⟨hl, m, ms, hms, hm⟩ := hmerge
          obtain ⟨level', levels', heq'⟩ := exists_readLevels pending ms
          have hspace : ∀ k : Lexeme, k.token = .whitespace →
              readLevels pending (k :: ms) = ⟨.token k level'.contents, level'.closed⟩ :: levels' := by
            intro k hk
            exact readLevels_token (by rw [hk]; rfl) (by simp [hk, Token.closes?]) heq'
          rw [hms, hspace m hm, List.cons.injEq, Level.joinSpaces, Level.mk.injEq] at ih
          obtain ⟨⟨hcontents, hclosed⟩, hlevels⟩ := ih
          rw [joinSpaces, hms]
          simp only [hl, hm, and_self, if_true]
          rw [hspace _ rfl, hlevels, hclosed]
          simp only [Level.joinSpaces, Forest.joinSpaces, ← hcontents, hl, hm, and_self, if_true]
        · -- nothing is joined here, in the lexemes or in the level that they are read into
          have hforest : (Forest.token l level.contents).joinSpaces =
              .token l level.contents.joinSpaces := by
            rcases Forest.joinSpaces_token_cases l level.contents with heq | ⟨m, tail, hm, hl, hm', -⟩
            · exact heq
            · rw [Level.joinSpaces, hm] at ih
              obtain ⟨ms, hms⟩ := exists_cons_of_readLevels ih
              exact absurd ⟨hl, m, ms, hms, hm'⟩ hmerge
          rw [joinSpaces_cons_of_apart hmerge, readLevels_token hopen hclose ih, Level.joinSpaces,
            Level.joinSpaces, hforest]

/-- The blocks of lexemes whose whitespace is joined. -/
theorem Forest.ofLexemes_joinSpaces (ls : List Lexeme) :
    ofLexemes (Sheet.joinSpaces ls) = (ofLexemes ls).joinSpaces := by
  obtain ⟨level, levels, heq⟩ := exists_readLevels [] ls
  rw [ofLexemes, ofLexemes, readLevels_joinSpaces, heq]
  rfl

/-- Joining whitespace keeps the text. -/
@[simp] theorem Forest.source_joinSpaces (f : Forest) : f.joinSpaces.source = f.source := by
  induction f with
  | nil => rfl
  | token l rest ih =>
      rw [Forest.source, ← ih]
      rcases joinSpaces_token_cases l rest with heq | ⟨m, tail, hm, -, -, heq⟩
      · rw [heq, Forest.source]
      · rw [heq, hm, Forest.source, Forest.source, List.append_assoc]
  | block o body closed rest ihb ihr => rw [joinSpaces, Forest.source, ihb, ihr, Forest.source]

/-- Joining whitespace keeps the size. -/
@[simp] theorem Forest.size_joinSpaces (f : Forest) : f.joinSpaces.size = f.size := by
  rw [← byteSize_source, source_joinSpaces, byteSize_source]

/-- Joining whitespace keeps the normal form. -/
@[simp] theorem Forest.textFrom_joinSpaces (f : Forest) (started gap : Bool) :
    f.joinSpaces.textFrom started gap = f.textFrom started gap := by
  induction f generalizing started gap with
  | nil => rfl
  | token l rest ih =>
      rcases joinSpaces_token_cases l rest with heq | ⟨m, tail, hm, hl, hm', heq⟩
      · simp only [heq, textFrom, ih]
      · -- two whitespace tokens leave the same gap as one
        simp only [heq, textFrom, hl, if_true, ← ih, hm, hm']
  | block o body closed rest ihb ihr => simp only [joinSpaces, textFrom, ihb, ihr]

/-- Joining whitespace keeps the problems. -/
@[simp] theorem Forest.problems_joinSpaces (f : Forest) (pos : Nat) :
    f.joinSpaces.problems pos = f.problems pos := by
  induction f generalizing pos with
  | nil => rfl
  | token l rest ih =>
      rcases joinSpaces_token_cases l rest with heq | ⟨m, tail, hm, hl, hm', heq⟩
      · simp only [heq, problems, ih]
      · have hspace : ∀ n, Token.problems .whitespace n = [] := fun _ => rfl
        simp only [heq, problems, hl, ← ih, hm, hm', hspace, byteSize_append, Nat.add_assoc,
          List.nil_append]
  | block o body closed rest ihb ihr =>
      simp only [joinSpaces, problems, ihb, ihr, size_joinSpaces]

/-- Joining whitespace in brackets keeps their mark. -/
@[simp] theorem Mark.ofBlock_joinSpaces (o : Lexeme) (body : Forest) (closed : Bool) (pos : Nat) :
    Mark.ofBlock o body.joinSpaces closed pos = Mark.ofBlock o body closed pos := by
  simp [Mark.ofBlock, blockText]

/-! ## Joining whitespace marks -/

/-- The whitespace `c` is made of `a` and `b`. -/
structure Mark.Joins (a b c : Mark) : Prop where
  left : a.kind = .space
  right : b.kind = .space
  joined : c.kind = .space
  chars_eq : c.chars = a.chars ++ b.chars

namespace Mark.Joins

variable {a b c : Mark} (h : a.Joins b c)

include h

/-- Whitespace is not solid. -/
theorem not_solid : a.isSolid = false ∧ b.isSolid = false ∧ c.isSolid = false := by
  simp [isSolid, h.left, h.right, h.joined]

/-- Joining whitespace keeps the at-rule. -/
theorem atRule?_eq (u v : List Mark) : atRule? (u ++ a :: b :: v) = atRule? (u ++ c :: v) := by
  obtain ⟨ha, hb, hc⟩ := h.not_solid
  simp [atRule?, List.find?_append, ha, hb, hc]

/-- Joining whitespace keeps the text. -/
theorem marksText_eq (u v : List Mark) (started gap : Bool) :
    marksText started gap (u ++ a :: b :: v) = marksText started gap (u ++ c :: v) := by
  induction u generalizing started gap with
  | nil => simp [marksText, h.left, h.right, h.joined]
  | cons m u ih => simp only [List.cons_append, marksText, ih]

/-- Joining whitespace keeps the entry. -/
theorem entry?_eq (u v : List Mark) : entry? (u ++ a :: b :: v) = entry? (u ++ c :: v) := by
  obtain ⟨ha, hb, hc⟩ := h.not_solid
  have hfilter : (u ++ a :: b :: v).filter isSolid = (u ++ c :: v).filter isSolid := by
    simp [ha, hb, hc]
  rw [ entry?, entry?, hfilter, h.marksText_eq]

/-- The whitespace that is joined lies in one part between commas. -/
theorem exists_splitCommas (u v : List Mark) :
    ∃ gs x y hs, splitCommas (u ++ a :: b :: v) = gs ++ (x ++ a :: b :: y) :: hs ∧
      splitCommas (u ++ c :: v) = gs ++ (x ++ c :: y) :: hs := by
  induction u with
  | nil =>
      obtain ⟨y, hs, hv⟩ := List.exists_cons_of_ne_nil (splitCommas_ne_nil v)
      exact ⟨[], [], y, hs, by simp [splitCommas, hv, h.left, h.right],
        by simp [splitCommas, hv, h.joined]⟩
  | cons m u ih =>
      obtain ⟨gs, x, y, hs, hab, hc⟩ := ih
      by_cases hm : m.kind = .comma
      · exact ⟨[] :: gs, x, y, hs, by simp [splitCommas, hm, hab], by simp [splitCommas, hm, hc]⟩
      · cases gs with
        | nil =>
            exact ⟨[], m :: x, y, hs, by simp [splitCommas, hm, hab], by simp [splitCommas, hm, hc]⟩
        | cons g gs =>
            exact ⟨(m :: g) :: gs, x, y, hs, by simp [splitCommas, hm, hab],
              by simp [splitCommas, hm, hc]⟩

/-- Joining whitespace keeps the entries. -/
theorem entries_eq (u v : List Mark) : entries (u ++ a :: b :: v) = entries (u ++ c :: v) := by
  obtain ⟨gs, x, y, hs, hab, hc⟩ := h.exists_splitCommas u v
  simp [entries, hab, hc, List.filterMap_cons, h.entry?_eq]

/-- Joining whitespace keeps the problem of a missing block. -/
theorem missingBlock_eq (u v : List Mark) :
    missingBlock (u ++ a :: b :: v) = missingBlock (u ++ c :: v) := by
  obtain ⟨ha, hb, hc⟩ := h.not_solid
  simp only [missingBlock, solidRun, List.dropWhile_append, List.dropWhile_cons, ha, hb, hc,
    Bool.not_false, if_true]
  cases hu : u.dropWhile (!·.isSolid) with
  | nil => simp
  | cons m u' =>
      -- a solid mark comes before the whitespace; the question is whether one comes after it
      simp only [List.isEmpty_cons, Bool.false_eq_true, if_false, List.reverse_append,
        List.reverse_cons, List.append_assoc, List.singleton_append, List.dropWhile_append,
        List.dropWhile_cons, ha, hb, hc, Bool.not_false, if_true]
      cases hw : v.reverse.dropWhile (!·.isSolid) with
      | nil => simp
      | cons k w => simp [h.chars_eq]

end Mark.Joins

/-! ## Outlines -/

/-- Joining whitespace keeps what a statement is. -/
theorem Mark.Joins.statement_eq {a b c : Mark} (h : a.Joins b c) (x s : List Mark) :
    (∀ context, endProblems context (x ++ b :: a :: s).reverse =
      endProblems context (x ++ c :: s).reverse) ∧
      bodyOf (x ++ b :: a :: s).reverse = bodyOf (x ++ c :: s).reverse := by
  have hab : (x ++ b :: a :: s).reverse = s.reverse ++ a :: b :: x.reverse := by simp
  have hc : (x ++ c :: s).reverse = s.reverse ++ c :: x.reverse := by simp
  constructor
  · intro context
    rw [hab, hc, endProblems, endProblems, h.atRule?_eq, h.missingBlock_eq]
  · rw [hab, hc, bodyOf, bodyOf, h.atRule?_eq, h.entries_eq]

/-- Joining whitespace in the statement that is being read leaves the outline as it is. -/
theorem outlineFrom_joins {a b c : Mark} (h : a.Joins b c) (context : Context) (depth pos : Nat)
    (x s : List Mark) (f : Forest) :
    outlineFrom context depth pos (x ++ b :: a :: s) f =
      outlineFrom context depth pos (x ++ c :: s) f := by
  induction f generalizing x pos with
  | nil => rw [outlineFrom, outlineFrom, (h.statement_eq x s).1]
  | token l rest ih =>
      have hrest := ih (pos + byteSize l.chars) (.ofLexeme l pos :: x)
      simp only [List.cons_append] at hrest
      simp only [outlineFrom, (h.statement_eq x s).1, hrest]
  | block o body closed rest _ ihr =>
      have hrest := ihr (pos + byteSize o.chars + body.size + byteSize (closerChars o closed))
        (.ofBlock o body closed pos :: x)
      simp only [List.cons_append] at hrest
      simp only [outlineFrom, (h.statement_eq x s).2, hrest]

/-- **Joining whitespace leaves an outline as it is.** -/
theorem outlineFrom_joinSpaces (f : Forest) (context : Context) (depth pos : Nat)
    (seen : List Mark) :
    outlineFrom context depth pos seen f.joinSpaces = outlineFrom context depth pos seen f := by
  induction f generalizing context depth pos seen with
  | nil => rfl
  | token l rest ih =>
      rcases Forest.joinSpaces_token_cases l rest with heq | ⟨m, tail, hm, hl, hm', heq⟩
      · simp only [heq, outlineFrom, ih]
      · -- reading the joined whitespace is reading its two parts
        have hjoins : (Mark.ofLexeme l pos).Joins (.ofLexeme m (pos + byteSize l.chars))
            (.ofLexeme ⟨.whitespace, l.chars ++ m.chars⟩ pos) :=
          ⟨by simp [Mark.ofLexeme, hl, Mark.Kind.ofToken],
            by simp [Mark.ofLexeme, hm', Mark.Kind.ofToken],
            by simp [Mark.ofLexeme, Mark.Kind.ofToken], rfl⟩
        have hjoin := outlineFrom_joins hjoins context depth
          (pos + byteSize l.chars + byteSize m.chars) [] seen tail
        have hspace : ∀ n, Token.problems .whitespace n = [] := fun _ => rfl
        have hsemi : Token.whitespace ≠ .semicolon := by decide
        simp only [List.nil_append] at hjoin
        simp only [heq, outlineFrom, hl, ← ih, hm, hm', hspace, if_neg hsemi, byteSize_append,
          ← Nat.add_assoc, hjoin]
        rfl
  | block o body closed rest ihb ihr =>
      simp only [Forest.joinSpaces, outlineFrom, ihb, ihr, Forest.size_joinSpaces,
        Forest.problems_joinSpaces, Mark.ofBlock_joinSpaces]

/-- **The outline of a text** that lexemes split is that of their blocks. -/
theorem Outline.ofChars_charsOf {ls : List Lexeme} (h : Splits ls []) :
    Outline.ofChars (charsOf ls) = outlineFrom .ruleList 0 0 [] (.ofLexemes ls) := by
  rw [Outline.ofChars, Forest.ofText, lexemes_of_splits h, Forest.ofLexemes_joinSpaces,
    outlineFrom_joinSpaces]

/-- **The outline of a text** that is put together from a nested forest. -/
theorem Outline.ofChars_source {f : Forest} (hsplits : Splits f.lexemes [])
    (hnested : f.Nested none) :
    Outline.ofChars f.source = outlineFrom .ruleList 0 0 [] f := by
  rw [← Forest.charsOf_lexemes, ofChars_charsOf hsplits, ofLexemes_lexemes hnested]

end StyleAudit.Sheet
