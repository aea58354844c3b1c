import Mathlib
import StyleAudit.Proofs.Sheet.Statement

/-! # The statement that a rule comes from

An outline keeps offsets and normal forms only. Every rule of it was made from one statement of the
text: a head, an opening brace, and a body. What the outline says of the rule's selectors can be
checked against the tokens of the head.

* **`Origin pos ls r`** — the lexemes of `ls` that the rule `r` was made from.
* **`Traced pos f within problems r`** — the rule `r` comes from a statement of the forest `f`.
* **`exists_origin_ofText`** — every rule of an outline has an origin in its text, and where the text
  has no problem, its head has none.
* **`closed_of_problems_eq_nil`** — where there is no problem, every rule is closed. -/

namespace StyleAudit.Sheet

open Text

/-! ## The rules of one statement -/

variable {q : Forest} {context : Context} {depth pos : Nat}

/-- The rules that a block adds: its own, and those in its body, whose problems it adds as well. -/
theorem Body.mem_rules_outline_and_problems {b : Body} {inside : Nat} {block : Span} {closed : Bool}
    {body : Forest} {r : Rule} (h : r ∈ (b.outline context depth inside block closed body).rules) :
    (∃ lead others, b = .style lead others ∧ r = ⟨lead, others, block, closed, depth⟩) ∨
      ∃ context', r ∈ (outlineFrom context' (depth + 1) inside [] body).rules ∧
        (outlineFrom context' (depth + 1) inside [] body).problems =
          (b.outline context depth inside block closed body).problems := by
  cases b with
  | group => exact .inr ⟨context, h, rfl⟩
  | skipped => simp [Body.outline] at h
  | style lead others =>
      rcases List.mem_cons.1 h with rfl | h
      · exact .inl ⟨lead, others, rfl, rfl⟩
      · exact .inr ⟨.declarations, h, rfl⟩

/-- The rules that a block adds: its own, and those in its body. -/
theorem Body.mem_rules_outline {b : Body} {inside : Nat} {block : Span} {closed : Bool}
    {body : Forest} {r : Rule} (h : r ∈ (b.outline context depth inside block closed body).rules) :
    (∃ lead others, b = .style lead others ∧ r = ⟨lead, others, block, closed, depth⟩) ∨
      ∃ context', r ∈ (outlineFrom context' (depth + 1) inside [] body).rules :=
  (Body.mem_rules_outline_and_problems h).imp_right fun ⟨context', hr, _⟩ => ⟨context', hr⟩

/-- **Where there is no problem, every rule is closed.** -/
theorem closed_of_problems_eq_nil {f : Forest} {context : Context} {depth pos : Nat} {r : Rule}
    (h : (outlineFrom context depth pos [] f).problems = [])
    (hr : r ∈ (outlineFrom context depth pos [] f).rules) : r.closed = true := by
  induction f using Forest.statements generalizing context depth pos with
  | finish q hq => simp [outlineFrom_finish hq] at hr
  | semicolon q l rest hq hl ih =>
      rw [outlineFrom_semicolon hq hl] at h hr
      simp only [Outline.problems_append, List.append_eq_nil_iff] at h
      exact ih h.2.2 hr
  | block q o body closed rest hq ho ihb ihr =>
      rw [outlineFrom_block hq ho] at h hr
      simp only [Outline.problems_append, Outline.problems_ofProblems,
        List.append_eq_nil_iff] at h
      obtain ⟨-, ⟨hbody, hclosed⟩, hrest⟩ := h
      simp only [Outline.rules_append, Outline.rules_ofProblems, List.nil_append, List.append_nil,
        List.mem_append] at hr
      rcases hr with hr | hr
      · cases hkind : bodyOf (q.marks pos) with
        | skipped => simp [hkind, Body.outline] at hr
        | group =>
            rw [hkind] at hbody hr
            exact ihb hbody hr
        | style lead others =>
            rw [hkind] at hbody hr
            rcases List.mem_cons.1 hr with rfl | hr
            · -- a block that is left open is a problem of its own
              by_contra hopen
              simp_all [blockProblems]
            · exact ihb hbody hr
      · exact ihr hrest hr

/-! ## Origins -/

/-- The lexemes of a sequence, which begins at offset `pos`, that a rule was made from. -/
structure Origin (pos : Nat) (ls : List Lexeme) (r : Rule) where
  /-- What stands before the statement. -/
  before : List Lexeme
  /-- What stands before the opening brace, from the start of the statement on. -/
  head : Forest
  brace : Lexeme
  body : Forest
  /-- What stands after the block. -/
  after : List Lexeme
  lexemes_eq : ls = before ++ (head.lexemes ++ (brace :: (body.lexemes ++
    (closerLexemes brace r.closed ++ after))))
  flat : head.Flat
  nested : ∃ within, head.Nested within
  brace_eq : brace.token = .opening .curly
  style : bodyOf (head.marks (pos + byteSize (charsOf before))) = .style r.lead r.others
  block_eq : r.block = ⟨pos + byteSize (charsOf before) + head.size,
    pos + byteSize (charsOf before) + head.size + byteSize brace.chars + body.size +
      byteSize (closerChars brace r.closed)⟩
  /-- A block that is not closed runs to the end. -/
  last : r.closed = false → after = []

namespace Origin

variable {ls front back : List Lexeme} {r : Rule}

/-- An origin in a part of a sequence is one in the whole, if nothing follows a part that a block
without an end is in. -/
def widen (g : Origin (pos + byteSize (charsOf front)) ls r)
    (hback : r.closed = false → back = []) : Origin pos (front ++ (ls ++ back)) r where
  before := front ++ g.before
  head := g.head
  brace := g.brace
  body := g.body
  after := g.after ++ back
  lexemes_eq := by
    refine (congrArg (fun ls => front ++ (ls ++ back)) g.lexemes_eq).trans ?_
    simp
  flat := g.flat
  nested := g.nested
  brace_eq := g.brace_eq
  style := by
    rw [charsOf_append, byteSize_append, ← Nat.add_assoc]
    exact g.style
  block_eq := by
    rw [charsOf_append, byteSize_append, ← Nat.add_assoc]
    exact g.block_eq
  last h := by rw [g.last h, hback h, List.append_nil]

end Origin

/-- If there are no `problems`, then the head has none. -/
def Origin.IsSound {ls : List Lexeme} {r : Rule} (g : Origin pos ls r) (problems : List Problem) :
    Prop :=
  problems = [] → g.head.problems (pos + byteSize (charsOf g.before)) = []

/-- An origin stays sound in the whole, where the problems of the part are among those there. -/
theorem Origin.IsSound.widen {ls front back : List Lexeme} {r : Rule}
    {problems problems' : List Problem} {g : Origin (pos + byteSize (charsOf front)) ls r}
    (h : g.IsSound problems) (hback : r.closed = false → back = [])
    (hproblems : problems' = [] → problems = []) : (g.widen hback).IsSound problems' := by
  intro hnone
  have hhead := h (hproblems hnone)
  rw [Nat.add_assoc, ← byteSize_append, ← charsOf_append] at hhead
  exact hhead

/-! ## Where the rules of a forest come from -/

/-- A rule comes from a statement of a forest that begins at `pos`. One that is not closed ends with
the forest, which is then not balanced. -/
structure Traced (pos : Nat) (f : Forest) (within : Option Bracket) (problems : List Problem)
    (r : Rule) : Prop where
  origin : ∃ g : Origin pos f.lexemes r, g.IsSound problems
  unbalanced : r.closed = false → ¬ f.Balanced within

namespace Traced

variable {within : Option Bracket} {problems problems' : List Problem} {r : Rule} {o : Lexeme}
variable {closed : Bool}

/-- What is traced in a part is traced in the whole. -/
theorem widen {f part : Forest} {inside : Option Bracket} (front back : List Lexeme) {start : Nat}
    (h : Traced start part inside problems r) (hstart : start = pos + byteSize (charsOf front))
    (hlex : f.lexemes = front ++ (part.lexemes ++ back)) (hback : r.closed = false → back = [])
    (hproblems : problems' = [] → problems = []) (hbal : r.closed = false → ¬ f.Balanced within) :
    Traced pos f within problems' r := by
  subst hstart
  obtain ⟨g, hsound⟩ := h.origin
  refine ⟨?_, hbal⟩
  rw [hlex]
  exact ⟨g.widen hback, hsound.widen hback hproblems⟩

/-- A rule after a semicolon. -/
theorem semicolon {l : Lexeme} {rest : Forest}
    (h : Traced (pos + q.size + byteSize l.chars) rest within problems r)
    (hproblems : problems' = [] → problems = []) :
    Traced pos (q ++ .token l rest) within problems' r := by
  refine h.widen (q.lexemes ++ [l]) [] ?_ ?_ (fun _ => rfl) hproblems
    fun hopen hbal => h.unbalanced hopen hbal.of_append.2.2.2
  · simp [Forest.charsOf_lexemes, Forest.byteSize_source, Nat.add_assoc]
  · simp [Forest.lexemes]

/-- A rule after a block. -/
theorem rest {body rest : Forest}
    (h : Traced (pos + q.size + byteSize o.chars + body.size + byteSize (closerChars o closed)) rest
      within problems r) (hproblems : problems' = [] → problems = []) :
    Traced pos (q ++ .block o body closed rest) within problems' r := by
  refine h.widen (q.lexemes ++ (o :: (body.lexemes ++ closerLexemes o closed))) [] ?_ ?_
    (fun _ => rfl) hproblems fun hopen hbal => h.unbalanced hopen hbal.of_append.2.2.2.2
  · simp [Forest.charsOf_lexemes, Forest.byteSize_source, Nat.add_assoc]
  · simp [Forest.lexemes]

/-- A rule in the body of a block. If it is not closed, then neither is the block, and nothing
stands after it. -/
theorem body {body rest : Forest}
    (h : Traced (pos + q.size + byteSize o.chars) body (some o.bracket) problems r)
    (hnest : (q ++ Forest.block o body closed rest).Nested within)
    (hproblems : problems' = [] → problems = []) :
    Traced pos (q ++ .block o body closed rest) within problems' r := by
  obtain ⟨-, -, hbal, hrest, -⟩ := hnest.append_right
  have hclosed : r.closed = false → closed = false := fun hopen => by
    by_contra hne
    exact h.unbalanced hopen (hbal (by simpa using hne))
  refine h.widen (q.lexemes ++ [o]) (closerLexemes o closed ++ rest.lexemes) ?_ ?_ (fun hopen => ?_) hproblems fun hopen hbal' => ?_
  · simp [Forest.charsOf_lexemes, Forest.byteSize_source, Nat.add_assoc]
  · simp [Forest.lexemes]
  · rw [hrest (hclosed hopen), hclosed hopen]
    rfl
  · have := hbal'.of_append.2.1
    simp [hclosed hopen] at this

/-- The rule of a statement with a block. -/
theorem here {body rest : Forest} (hq : q.Flat) (ho : o.token = .opening .curly)
    (hnest : (q ++ Forest.block o body closed rest).Nested within) {lead : Entry}
    {others : List Entry} (hstyle : bodyOf (q.marks pos) = .style lead others)
    (hproblems : problems = [] → q.problems pos = []) :
    Traced pos (q ++ .block o body closed rest) within problems
      ⟨lead, others, ⟨pos + q.size, pos + q.size + byteSize o.chars + body.size +
        byteSize (closerChars o closed)⟩, closed, depth⟩ where
  origin := by
    obtain ⟨-, -, -, hrest, -⟩ := hnest.append_right
    refine ⟨{
      before := []
      head := q
      brace := o
      body := body
      after := rest.lexemes
      lexemes_eq := by simp [Forest.lexemes]
      flat := hq
      nested := ⟨within, hnest.append_left⟩
      brace_eq := ho
      style := by simpa using hstyle
      block_eq := by simp
      last := fun h => by rw [hrest h]; rfl }, fun h => ?_⟩
    simpa using hproblems h
  unbalanced h hbal := by
    have hclosed := hbal.of_append.2.1
    simp_all

end Traced

/-- **Every rule comes from a statement**, whose head has no problem where there is none at all. -/
theorem traced_outlineFrom {f : Forest} {context : Context} {depth pos : Nat} {r : Rule}
    {within : Option Bracket} (hnest : f.Nested within)
    (hr : r ∈ (outlineFrom context depth pos [] f).rules) :
    Traced pos f within (outlineFrom context depth pos [] f).problems r := by
  induction f using Forest.statements generalizing context depth pos within with
  | finish q hq => simp [outlineFrom_finish hq] at hr
  | semicolon q l rest hq hl ih =>
      rw [outlineFrom_semicolon hq hl] at hr ⊢
      refine (ih hnest.append_right.2.2 hr).semicolon fun h => ?_
      simp only [Outline.problems_append, List.append_eq_nil_iff] at h
      exact h.2.2
  | block q o body closed rest hq ho ihb ihr =>
      obtain ⟨-, hbody, -, -, hrest⟩ := hnest.append_right
      rw [outlineFrom_block hq ho] at hr ⊢
      simp only [Outline.rules_append, Outline.rules_ofProblems, List.nil_append, List.append_nil,
        List.mem_append] at hr
      simp only [Outline.problems_append, Outline.problems_ofProblems]
      -- the rule of this very statement, a rule of its body, or one after it
      rcases hr with hr | hr
      · rcases Body.mem_rules_outline_and_problems hr with
          ⟨lead, others, hstyle, rfl⟩ | ⟨context', hr, hproblems⟩
        · refine .here hq ho hnest hstyle fun h => ?_
          simp only [List.append_eq_nil_iff] at h
          exact h.1
        · refine (ihb hbody hr).body hnest fun h => ?_
          rw [← hproblems] at h
          simp only [List.append_eq_nil_iff] at h
          exact h.2.1.1
      · refine (ihr hrest hr).rest fun h => ?_
        simp only [List.append_eq_nil_iff] at h
        exact h.2.2

/-- **Every rule of a text has an origin in it**, sound for the problems of the text. -/
theorem exists_origin_ofText {text : String} {r : Rule} (hr : r ∈ (Outline.ofText text).rules) :
    ∃ g : Origin 0 (lexemes text.toList) r, g.IsSound (Outline.ofText text).problems := by
  have h := (traced_outlineFrom (Forest.nested_ofText text.toList) hr).origin
  rwa [Forest.lexemes_ofText] at h

/-- **Every rule of a text has an origin in it.** -/
theorem nonempty_origin_ofText {text : String} {r : Rule} (hr : r ∈ (Outline.ofText text).rules) :
    Nonempty (Origin 0 (lexemes text.toList) r) :=
  let ⟨g, _⟩ := exists_origin_ofText hr
  ⟨g⟩

end StyleAudit.Sheet
