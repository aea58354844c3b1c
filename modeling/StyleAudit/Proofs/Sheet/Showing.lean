import Mathlib
import StyleAudit.Proofs.Sheet.Origin

/-! # What an outline shows

Two texts that declare the same selectors in the same nesting have outlines that differ in offsets
only. What an outline shows apart from offsets is put together statement by statement, wherever in a
text the statements stand.

* **`Rule.face`** — the texts of a rule's selectors, and its depth.
* **`Forest.Shows context depth faces`** — the forest outlines without a problem to such rules.
* **`shows_finish`, `shows_semicolon`, `shows_skipped`, `shows_group`, `shows_style`** — what the
  statements of a forest show.
* **`shows_outlineFrom`** — what a forest shows does not depend on its place.
* **`shows_tokens_iff`** — whitespace and comments show nothing. -/

namespace StyleAudit.Sheet

open Text

/-- The texts of a rule's selectors, and its depth. -/
def Rule.face (r : Rule) : List String × Nat := (r.entries.map Entry.text, r.depth)

/-- Wherever it stands, the forest outlines without a problem to rules with the given faces. -/
def Forest.Shows (context : Context) (depth : Nat) (faces : List (List String × Nat))
    (f : Forest) : Prop :=
  ∀ pos, (outlineFrom context depth pos [] f).problems = [] ∧
    (outlineFrom context depth pos [] f).rules.map Rule.face = faces

/-- Whether a token is a problem does not depend on its place. -/
theorem Token.problems_eq_nil_iff {t : Token} {pos : Nat} : t.problems pos = [] ↔ t.cause? = none := by
  rw [Token.problems]
  cases t.cause? <;> simp

/-- Whether a block is a problem does not depend on its place. -/
theorem blockProblems_eq_nil_iff {closed : Bool} {pos : Nat} :
    blockProblems closed pos = [] ↔ closed = true := by
  cases closed <;> simp [blockProblems]

/-- Whether a forest holds a problem does not depend on its place. -/
theorem Forest.problems_eq_nil (f : Forest) {pos : Nat} (h : f.problems pos = []) (pos' : Nat) :
    f.problems pos' = [] := by
  induction f generalizing pos pos' with
  | nil => rfl
  | token l rest ih =>
      simp only [problems, List.append_eq_nil_iff, Token.problems_eq_nil_iff] at h ⊢
      exact ⟨h.1, ih h.2 _⟩
  | block o body closed rest ihb ihr =>
      simp only [problems, List.append_eq_nil_iff, blockProblems_eq_nil_iff] at h ⊢
      exact ⟨⟨ihb h.1.1 _, h.1.2⟩, ihr h.2 _⟩

/-- A forest that is outlined without a problem is balanced. -/
theorem Forest.Nested.balanced {f : Forest} {within : Option Bracket} {context : Context}
    {depth pos : Nat} {seen : List Mark} (hnest : f.Nested within)
    (h : (outlineFrom context depth pos seen f).problems = []) : f.Balanced within := by
  induction f generalizing pos seen with
  | nil => trivial
  | token l rest ih =>
      refine ⟨hnest.1, hnest.2.1, ?_⟩
      rw [outlineFrom] at h
      split at h
      · exact ih hnest.2.2 (List.append_eq_nil_iff.1 h).2
      · exact ih hnest.2.2 (List.append_eq_nil_iff.1 h).2
  | block o body closed rest _ ih =>
      obtain ⟨ho, -, hbody, -, hrest⟩ := hnest
      rw [outlineFrom] at h
      simp only at h
      have hparts : blockProblems closed pos = [] ∧ rest.Balanced within := by
        split at h
        · simp only [Outline.problems_append, Outline.problems_ofProblems,
            List.append_eq_nil_iff] at h
          exact ⟨h.1.2, ih hrest h.2⟩
        · simp only [Outline.problems_append, Outline.problems_ofProblems,
            List.append_eq_nil_iff] at h
          exact ⟨h.1.2, ih hrest h.2⟩
      have hclosed := blockProblems_eq_nil_iff.1 hparts.1
      exact ⟨hclosed, ho, hbody hclosed, hparts.2⟩

variable {context : Context} {depth pos : Nat} {q : Forest}

/-- The end of a head is no problem wherever it stands. -/
theorem Forest.endProblems_marks (q : Forest) (h : endProblems context (q.marks pos) = [])
    (pos' : Nat) : endProblems context (q.marks pos') = [] :=
  ((statement_alike (q.map_bare_marks pos pos')).1 context).1 h

/-- A head that ends a forest. -/
theorem shows_finish (hq : q.Flat) (hproblems : q.problems pos = [])
    (hend : endProblems context (q.marks pos) = []) : q.Shows context depth [] := by
  intro pos'
  have hhead := outlineFrom_head hq context depth pos' [] .nil
  rw [Forest.append_nil, q.problems_eq_nil hproblems, Outline.ofProblems_nil_append, outlineFrom,
    List.append_nil, List.reverse_reverse, q.endProblems_marks hend] at hhead
  rw [hhead]
  exact ⟨rfl, rfl⟩

/-- A head that ends with a semicolon. -/
theorem shows_semicolon {l : Lexeme} {rest : Forest} {faces : List (List String × Nat)}
    (hq : q.Flat) (hproblems : q.problems pos = []) (hl : l.token = .semicolon)
    (hend : endProblems context (q.marks pos) = []) (hrest : rest.Shows context depth faces) :
    (q ++ .token l rest).Shows context depth faces := by
  intro pos'
  rw [outlineFrom_head hq, q.problems_eq_nil hproblems, Outline.ofProblems_nil_append, outlineFrom,
    if_pos hl, List.append_nil, List.reverse_reverse, q.endProblems_marks hend,
    Outline.ofProblems_nil_append]
  exact hrest _

/-- **A statement with a block** outlines as its block does, and then as what follows it. -/
theorem outlineFrom_statement {o : Lexeme} (hq : q.Flat) (hproblems : q.problems pos = [])
    (ho : o.token = .opening .curly) (context : Context) (depth : Nat) (body rest : Forest) :
    outlineFrom context depth pos [] (q ++ .block o body true rest) =
      (bodyOf (q.marks pos)).outline context depth (pos + q.size + byteSize o.chars)
        ⟨pos + q.size, pos + q.size + byteSize o.chars + body.size +
          byteSize (closerChars o true)⟩ true body ++
        outlineFrom context depth (pos + q.size + byteSize o.chars + body.size +
          byteSize (closerChars o true)) [] rest := by
  rw [outlineFrom_block hq ho, hproblems, Outline.ofProblems_nil_append, append_assoc_outline]
  rfl

/-- A head that ends with a block that is passed over. -/
theorem shows_skipped {o : Lexeme} {body rest : Forest} {faces : List (List String × Nat)}
    (hq : q.Flat) (hproblems : q.problems pos = []) (ho : o.token = .opening .curly)
    (hbody : bodyOf (q.marks pos) = .skipped) (hrest : rest.Shows context depth faces) :
    (q ++ .block o body true rest).Shows context depth faces := by
  intro pos'
  have halike := (statement_alike (q.map_bare_marks pos pos')).2
  rw [outlineFrom_statement hq (q.problems_eq_nil hproblems pos') ho]
  rw [hbody] at halike
  cases hbody' : bodyOf (q.marks pos') with
  | skipped => exact hrest _
  | group => simp [hbody', Body.Alike] at halike
  | style lead others => simp [hbody', Body.Alike] at halike

/-- A head that ends with the block of a group at-rule. -/
theorem shows_group {o : Lexeme} {body rest : Forest} {inner faces : List (List String × Nat)}
    (hq : q.Flat) (hproblems : q.problems pos = []) (ho : o.token = .opening .curly)
    (hbody : bodyOf (q.marks pos) = .group) (hinner : body.Shows context (depth + 1) inner)
    (hrest : rest.Shows context depth faces) :
    (q ++ .block o body true rest).Shows context depth (inner ++ faces) := by
  intro pos'
  have halike := (statement_alike (q.map_bare_marks pos pos')).2
  rw [outlineFrom_statement hq (q.problems_eq_nil hproblems pos') ho]
  rw [hbody] at halike
  cases hbody' : bodyOf (q.marks pos') with
  | skipped => simp [hbody', Body.Alike] at halike
  | group =>
      obtain ⟨h₁, h₂⟩ := hinner (pos' + q.size + byteSize o.chars)
      obtain ⟨h₃, h₄⟩ := hrest (pos' + q.size + byteSize o.chars + body.size +
        byteSize (closerChars o true))
      simp [Body.outline, h₁, h₂, h₃, h₄]
  | style lead others => simp [hbody', Body.Alike] at halike

/-- A head that ends with the block of a style rule. -/
theorem shows_style {o : Lexeme} {body rest : Forest} {inner faces : List (List String × Nat)}
    {lead : Entry} {others : List Entry} (hq : q.Flat) (hproblems : q.problems pos = [])
    (ho : o.token = .opening .curly) (hbody : bodyOf (q.marks pos) = .style lead others)
    (hinner : body.Shows .declarations (depth + 1) inner)
    (hrest : rest.Shows context depth faces) :
    (q ++ .block o body true rest).Shows context depth
      (((lead :: others).map Entry.text, depth) :: (inner ++ faces)) := by
  intro pos'
  have halike := (statement_alike (q.map_bare_marks pos pos')).2
  rw [outlineFrom_statement hq (q.problems_eq_nil hproblems pos') ho]
  rw [hbody] at halike
  cases hbody' : bodyOf (q.marks pos') with
  | skipped => simp [hbody', Body.Alike] at halike
  | group => simp [hbody', Body.Alike] at halike
  | style lead' others' =>
      rw [hbody'] at halike
      obtain ⟨h₁, h₂⟩ := hinner (pos' + q.size + byteSize o.chars)
      obtain ⟨h₃, h₄⟩ := hrest (pos' + q.size + byteSize o.chars + body.size +
        byteSize (closerChars o true))
      have hface : (lead' :: others').map Entry.text = (lead :: others).map Entry.text :=
        Eq.symm halike
      simp only [List.map_cons] at hface
      simp [Body.outline, h₁, h₂, h₃, h₄, Rule.face, Rule.entries, hface]

/-- **What a forest without a problem shows** does not depend on its place. -/
theorem shows_outlineFrom {f : Forest} {context : Context} {depth pos : Nat}
    (h : (outlineFrom context depth pos [] f).problems = []) :
    f.Shows context depth ((outlineFrom context depth pos [] f).rules.map Rule.face) := by
  induction f using Forest.statements generalizing context depth pos with
  | finish q hq =>
      rw [outlineFrom_finish hq] at h ⊢
      obtain ⟨hproblems, hend⟩ := List.append_eq_nil_iff.1 h
      exact shows_finish hq hproblems hend
  | semicolon q l rest hq hl ih =>
      rw [outlineFrom_semicolon hq hl] at h ⊢
      simp only [Outline.problems_append, Outline.problems_ofProblems,
        List.append_eq_nil_iff] at h
      exact shows_semicolon hq h.1 hl h.2.1 (ih h.2.2)
  | block q o body closed rest hq ho ihb ihr =>
      rw [outlineFrom_block hq ho] at h ⊢
      simp only [Outline.problems_append, Outline.problems_ofProblems, List.append_eq_nil_iff,
        blockProblems_eq_nil_iff] at h
      obtain ⟨hproblems, ⟨hbody, rfl⟩, hrest⟩ := h
      have hrest := ihr hrest
      simp only [Outline.rules_append, Outline.rules_ofProblems, List.nil_append, List.append_nil,
        List.map_append]
      cases hkind : bodyOf (q.marks pos) with
      | skipped => exact shows_skipped hq hproblems ho hkind hrest
      | group =>
          rw [hkind] at hbody
          exact shows_group hq hproblems ho hkind (ihb hbody) hrest
      | style lead others =>
          rw [hkind] at hbody
          exact shows_style hq hproblems ho hkind (ihb hbody) hrest

/-! ## Whitespace and comments -/

/-- The lexeme is whitespace or a comment. -/
def Lexeme.Dull (l : Lexeme) : Prop := l.token = .whitespace ∨ l.token = .comment true

/-- Whitespace and comments are no problem and no end of a statement. -/
theorem Lexeme.Dull.isQuiet {l : Lexeme} (h : l.Dull) : l.token.isQuiet = true := by
  rcases h with h | h <;> rw [h] <;> rfl

/-- The marks of whitespace and comments are not solid. -/
theorem dull_marksAt {ls : List Lexeme} (h : ∀ l ∈ ls, l.Dull) (pos : Nat) :
    Dull (marksAt pos ls) := by
  induction ls generalizing pos with
  | nil => simp [Dull, marksAt]
  | cons l ls ih =>
      intro m hm
      rw [marksAt] at hm
      rcases List.mem_cons.1 hm with rfl | hm
      · rcases h l (by simp) with hl | hl <;>
          simp [Mark.isSolid, Mark.ofLexeme, Mark.Kind.ofToken, hl, Token.isVisible]
      · exact ih (fun k hk => h k (by simp [hk])) _ m hm

/-- Whitespace and comments at the start of a statement do not show in an outline. -/
theorem outlineFrom_dullTokens {ls : List Lexeme} (hls : ∀ l ∈ ls, l.Dull) (context : Context)
    (depth pos : Nat) (f : Forest) :
    outlineFrom context depth pos [] (.tokens ls f) =
      outlineFrom context depth (pos + byteSize (charsOf ls)) [] f := by
  have hdull : Dull (marksAt pos ls).reverse :=
    fun m hm => dull_marksAt hls pos m (List.mem_reverse.1 hm)
  have hwalk := outlineFrom_dull hdull context depth (pos + byteSize (charsOf ls)) [] f
  rw [List.nil_append] at hwalk
  rw [outlineFrom_tokens fun l hl => (hls l hl).isQuiet, List.append_nil, hwalk]

/-- **Whitespace and comments** show nothing. -/
theorem shows_tokens_iff {ls : List Lexeme} {f : Forest} {faces : List (List String × Nat)}
    (hls : ∀ l ∈ ls, l.Dull) :
    (Forest.tokens ls f).Shows context depth faces ↔ f.Shows context depth faces := by
  constructor
  · intro h
    obtain ⟨hproblems, hfaces⟩ := h 0
    rw [outlineFrom_dullTokens hls] at hproblems hfaces
    rw [← hfaces]
    exact shows_outlineFrom hproblems
  · intro h pos
    rw [outlineFrom_dullTokens hls]
    exact h _

end StyleAudit.Sheet
