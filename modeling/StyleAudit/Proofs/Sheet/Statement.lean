import Mathlib
import StyleAudit.Proofs.Sheet.Spacing

/-! # Statements

A forest is a sequence of statements. Each one is a run of tokens and brackets, its head, that ends
with a semicolon, with a block between braces, or with the forest. What a statement is depends on
the marks of its head, and of those only on their kinds and texts.

* **`Forest.Flat`** — a head: it holds neither a semicolon nor a block between braces.
* **`Forest.statements`** — induction over the statements of a forest.
* **`Forest.marks pos`** — the marks of a head that begins at `pos`.
* **`outlineFrom_head`** — the outline of a head and what follows it.
* **`outlineFrom_block`** — the outline of a statement with a block, and of what follows it.
* **`outlineFrom_dull`** — marks that are not solid do not show at the start of a statement.
* **`Mark.face`** — the kind and the text of a mark. -/

namespace StyleAudit.Sheet

open Text

/-! ## The outline of parts -/

namespace Outline

@[simp] theorem rules_append (a b : Outline) : (a ++ b).rules = a.rules ++ b.rules := rfl

@[simp] theorem problems_append (a b : Outline) : (a ++ b).problems = a.problems ++ b.problems := rfl

@[simp] theorem rules_ofProblems (ps : List Problem) : (ofProblems ps).rules = [] := rfl

@[simp] theorem problems_ofProblems (ps : List Problem) : (ofProblems ps).problems = ps := rfl

@[simp] theorem rules_empty : empty.rules = [] := rfl

@[simp] theorem problems_empty : empty.problems = [] := rfl

end Outline

/-! ## Heads -/

/-- Tokens in front of a forest. -/
def Forest.tokens (ls : List Lexeme) (f : Forest) : Forest := ls.foldr Forest.token f

@[simp] theorem Forest.lexemes_tokens (ls : List Lexeme) (f : Forest) :
    (Forest.tokens ls f).lexemes = ls ++ f.lexemes := by
  induction ls with
  | nil => rfl
  | cons l ls ih => exact congrArg (l :: ·) ih

@[simp] theorem Forest.source_tokens (ls : List Lexeme) (f : Forest) :
    (Forest.tokens ls f).source = charsOf ls ++ f.source := by
  rw [← Forest.charsOf_lexemes, lexemes_tokens, charsOf_append, Forest.charsOf_lexemes]

/-- Tokens before two forests. -/
theorem Forest.tokens_append (ls : List Lexeme) (f g : Forest) :
    Forest.tokens ls f ++ g = .tokens ls (f ++ g) := by
  induction ls with
  | nil => rfl
  | cons l ls ih => exact congrArg (Forest.token l) ih

/-- Tokens before a forest are a forest before it. -/
theorem Forest.tokens_eq_append (ls : List Lexeme) (f : Forest) :
    Forest.tokens ls f = .tokens ls .nil ++ f := by
  rw [tokens_append]
  rfl

/-- Tokens that are no brackets keep a forest balanced. -/
theorem Forest.Balanced.tokens {ls : List Lexeme} {f : Forest} {within : Option Bracket}
    (hls : ∀ l ∈ ls, l.token.opens? = none ∧ l.token.closes? = none) (hf : f.Balanced within) :
    (Forest.tokens ls f).Balanced within := by
  induction ls with
  | nil => exact hf
  | cons l ls ih =>
      obtain ⟨hopen, hclose⟩ := hls l (by simp)
      exact ⟨hopen, by simp [hclose], ih fun k hk => hls k (by simp [hk])⟩

namespace Forest

/-- The forest holds neither a semicolon nor a block between braces, at its top. -/
def Flat : Forest → Prop
  | .nil => True
  | .token l rest => l.token ≠ .semicolon ∧ rest.Flat
  | .block o _ _ rest => o.token ≠ .opening .curly ∧ rest.Flat

/-- The marks of a head that begins at `pos`. -/
def marks (pos : Nat) : Forest → List Mark
  | .nil => []
  | .token l rest => .ofLexeme l pos :: rest.marks (pos + byteSize l.chars)
  | .block o body closed rest =>
      .ofBlock o body closed pos :: rest.marks
        (pos + byteSize o.chars + body.size + byteSize (closerChars o closed))

/-- Two heads make one. -/
theorem Flat.append {f g : Forest} (hf : f.Flat) (hg : g.Flat) : (f ++ g).Flat := by
  induction f with
  | nil => exact hg
  | token l rest ih => exact ⟨hf.1, ih hf.2⟩
  | block o body closed rest _ ih => exact ⟨hf.1, ih hf.2⟩

/-- The parts of a head are heads. -/
theorem Flat.of_append {f g : Forest} (h : (f ++ g).Flat) : f.Flat ∧ g.Flat := by
  induction f with
  | nil => exact ⟨trivial, h⟩
  | token l rest ih => exact ⟨⟨h.1, (ih h.2).1⟩, (ih h.2).2⟩
  | block o body closed rest _ ih => exact ⟨⟨h.1, (ih h.2).1⟩, (ih h.2).2⟩

/-- **Induction over statements.** -/
@[elab_as_elim]
theorem statements {motive : Forest → Prop} (f : Forest)
    (finish : ∀ q : Forest, q.Flat → motive q)
    (semicolon : ∀ (q : Forest) (l : Lexeme) (rest : Forest), q.Flat → l.token = .semicolon →
      motive rest → motive (q ++ .token l rest))
    (block : ∀ (q : Forest) (o : Lexeme) (body : Forest) (closed : Bool) (rest : Forest), q.Flat →
      o.token = .opening .curly → motive body → motive rest →
      motive (q ++ .block o body closed rest)) : motive f := by
  -- what has been read of the current statement is kept in front
  suffices h : ∀ q : Forest, q.Flat → motive (q ++ f) from h .nil trivial
  induction f with
  | nil =>
      intro q hq
      rw [append_nil]
      exact finish q hq
  | token l rest ih =>
      intro q hq
      by_cases hl : l.token = .semicolon
      · exact semicolon q l rest hq hl (ih .nil trivial)
      · have h := ih (q ++ .token l .nil) (hq.append (g := .token l .nil) ⟨hl, trivial⟩)
        rwa [append_assoc] at h
  | block o body closed rest ihb ihr =>
      intro q hq
      by_cases ho : o.token = .opening .curly
      · exact block q o body closed rest hq ho (ihb .nil trivial) (ihr .nil trivial)
      · have h := ihr (q ++ .block o body closed .nil)
          (hq.append (g := .block o body closed .nil) ⟨ho, trivial⟩)
        rwa [append_assoc] at h

/-- The size of two forests. -/
@[simp] theorem size_append (f g : Forest) : (f ++ g).size = f.size + g.size := by
  rw [← byteSize_source, source_append, byteSize_append, byteSize_source, byteSize_source]

/-- The marks of two heads. -/
theorem marks_append (f g : Forest) (pos : Nat) :
    (f ++ g).marks pos = f.marks pos ++ g.marks (pos + f.size) := by
  induction f generalizing pos with
  | nil => rfl
  | token l rest ih => simp [marks, size, ih, Nat.add_assoc]
  | block o body closed rest _ ih => simp [marks, size, ih, Nat.add_assoc]

/-- The problems of two forests. -/
theorem problems_append (f g : Forest) (pos : Nat) :
    (f ++ g).problems pos = f.problems pos ++ g.problems (pos + f.size) := by
  induction f generalizing pos with
  | nil => rfl
  | token l rest ih => simp [problems, size, ih, Nat.add_assoc]
  | block o body closed rest _ ih => simp [problems, size, ih, Nat.add_assoc]

/-- The marks of a head are made of its characters. -/
theorem marksChars_marks (f : Forest) (pos : Nat) : marksChars (f.marks pos) = f.source := by
  induction f generalizing pos with
  | nil => rfl
  | token l rest ih => simp [marks, source, ih, Mark.ofLexeme]
  | block o body closed rest _ ih => simp [marks, source, ih, Mark.ofBlock]

/-- The marks of a head lie end to end. -/
theorem run_marks {f : Forest} (h : ∀ l ∈ f.lexemes, l.chars ≠ []) (pos : Nat) :
    Run pos (f.marks pos) := by
  induction f generalizing pos with
  | nil => trivial
  | token l rest ih =>
      exact ⟨rfl, h l (by simp [lexemes]), ih (fun k hk => h k (by simp [lexemes, hk])) _⟩
  | block o body closed rest _ ih =>
      have hsize : (Mark.ofBlock o body closed pos).stop =
          pos + byteSize o.chars + body.size + byteSize (closerChars o closed) := by
        simp [Mark.stop, Mark.ofBlock, byteSize_source, Nat.add_assoc]
      refine ⟨rfl, ?_, ?_⟩
      · have := h o (by simp [lexemes])
        simp [Mark.ofBlock, this]
      · rw [hsize]
        exact ih (fun k hk => h k (by simp [lexemes, hk])) _

/-- Marks that are cut in two cut their head. -/
theorem exists_append_of_marks {f : Forest} {pos : Nat} {as bs : List Mark}
    (h : f.marks pos = as ++ bs) :
    ∃ a b, f = a ++ b ∧ a.marks pos = as ∧ b.marks (pos + a.size) = bs := by
  induction as generalizing f pos with
  | nil => exact ⟨.nil, f, rfl, rfl, h⟩
  | cons m as ih =>
      cases f with
      | nil => simp [marks] at h
      | token l rest =>
          obtain ⟨rfl, hrest⟩ := List.cons.inj h
          obtain ⟨a, b, rfl, ha, hb⟩ := ih hrest
          refine ⟨.token l a, b, rfl, by rw [marks, ha], ?_⟩
          rwa [size, ← Nat.add_assoc]
      | block o body closed rest =>
          obtain ⟨rfl, hrest⟩ := List.cons.inj h
          obtain ⟨a, b, rfl, ha, hb⟩ := ih hrest
          refine ⟨.block o body closed a, b, rfl, by rw [marks, ha], ?_⟩
          rw [size]
          simpa only [Nat.add_assoc] using hb

end Forest

/-- Outlines are put together in any order. -/
theorem append_assoc_outline (a b c : Outline) : a ++ b ++ c = a ++ (b ++ c) := by
  change Outline.mk _ _ = Outline.mk _ _
  simp [List.append_assoc]

/-- Problems one after the other. -/
theorem Outline.ofProblems_append (ps qs : List Problem) (o : Outline) :
    ofProblems ps ++ (ofProblems qs ++ o) = ofProblems (ps ++ qs) ++ o := by
  rw [← append_assoc_outline]
  rfl

/-- **The outline of a head and what follows it.** -/
theorem outlineFrom_head {q : Forest} (hq : q.Flat) (context : Context) (depth pos : Nat)
    (seen : List Mark) (g : Forest) :
    outlineFrom context depth pos seen (q ++ g) =
      .ofProblems (q.problems pos) ++
        outlineFrom context depth (pos + q.size) ((q.marks pos).reverse ++ seen) g := by
  induction q generalizing pos seen with
  | nil => rfl
  | token l rest ih =>
      rw [Forest.token_append, outlineFrom, if_neg hq.1, ih hq.2, Outline.ofProblems_append]
      simp only [Forest.problems, Forest.marks, Forest.size, List.reverse_cons,
        List.append_assoc, List.singleton_append, Nat.add_assoc]
  | block o body closed rest _ ih =>
      rw [Forest.block_append, outlineFrom, if_neg hq.1, ih hq.2, Outline.ofProblems_append]
      simp only [Forest.problems, Forest.marks, Forest.size, List.reverse_cons,
        List.append_assoc, List.singleton_append, Nat.add_assoc]

/-! ## Walking over tokens -/

/-- The marks of lexemes that begin at offset `pos`. -/
def marksAt : (pos : Nat) → List Lexeme → List Mark
  | _, [] => []
  | pos, l :: ls => .ofLexeme l pos :: marksAt (pos + byteSize l.chars) ls

/-- The marks of two sequences of lexemes. -/
theorem marksAt_append (pos : Nat) (ks ls : List Lexeme) :
    marksAt pos (ks ++ ls) = marksAt pos ks ++ marksAt (pos + byteSize (charsOf ks)) ls := by
  induction ks generalizing pos with
  | nil => simp [marksAt]
  | cons k ks ih => simp [marksAt, ih, Nat.add_assoc]

/-- A token that goes on with a statement and is no problem. -/
def Token.isQuiet (t : Token) : Bool := t != .semicolon && t.cause?.isNone

/-- Nothing is added by no problems. -/
@[simp] theorem Outline.ofProblems_nil_append (o : Outline) : Outline.ofProblems [] ++ o = o := rfl

/-- A quiet token is a mark of the statement that is being read. -/
theorem outlineFrom_token {l : Lexeme} (h : l.token.isQuiet = true) (context : Context)
    (depth pos : Nat) (seen : List Mark) (f : Forest) :
    outlineFrom context depth pos seen (.token l f) =
      outlineFrom context depth (pos + byteSize l.chars) (.ofLexeme l pos :: seen) f := by
  simp only [Token.isQuiet, Bool.and_eq_true, bne_iff_ne, ne_eq, Option.isNone_iff_eq_none] at h
  have hproblems : l.token.problems pos = [] := by rw [Token.problems, h.2]
  rw [outlineFrom, if_neg h.1, hproblems, Outline.ofProblems_nil_append]

/-- A curly block ends the statement before it, which says how the block is read. -/
theorem outlineFrom_curly {o : Lexeme} (ho : o.token = .opening .curly) (context : Context)
    (depth pos : Nat) (seen : List Mark) (body : Forest) (closed : Bool) (rest : Forest) :
    outlineFrom context depth pos seen (.block o body closed rest) =
      (match bodyOf seen.reverse with
        | .skipped => .empty
        | .group => outlineFrom context (depth + 1) (pos + byteSize o.chars) [] body
        | .style lead others =>
            ⟨[⟨lead, others, ⟨pos, pos + byteSize o.chars + body.size +
              byteSize (closerChars o closed)⟩, closed, depth⟩], []⟩ ++
              outlineFrom .declarations (depth + 1) (pos + byteSize o.chars) [] body) ++
        .ofProblems (blockProblems closed pos) ++
          outlineFrom context depth
            (pos + byteSize o.chars + body.size + byteSize (closerChars o closed)) [] rest := by
  rw [outlineFrom]
  exact if_pos ho

/-- **Walking over tokens** that go on with a statement gathers their marks. -/
theorem outlineFrom_tokens {ls : List Lexeme} (h : ∀ l ∈ ls, l.token.isQuiet = true)
    (context : Context) (depth pos : Nat) (seen : List Mark) (f : Forest) :
    outlineFrom context depth pos seen (.tokens ls f) =
      outlineFrom context depth (pos + byteSize (charsOf ls)) ((marksAt pos ls).reverse ++ seen)
        f := by
  induction ls generalizing pos seen with
  | nil => rfl
  | cons l ls ih =>
      have ih := ih (fun k hk => h k (by simp [hk])) (pos + byteSize l.chars)
        (.ofLexeme l pos :: seen)
      change outlineFrom context depth pos seen (.token l (.tokens ls f)) = _
      rw [outlineFrom_token (h l (by simp)), ih]
      simp [marksAt, Nat.add_assoc]

/-! ## The outline of one statement -/

/-- What the outline of a block adds, by the way that the block is read. -/
def Body.outline (context : Context) (depth inside : Nat) (block : Span) (closed : Bool)
    (body : Forest) : Body → Outline
  | .skipped => .empty
  | .group => outlineFrom context (depth + 1) inside [] body
  | .style lead others =>
      ⟨[⟨lead, others, block, closed, depth⟩], []⟩ ++
        outlineFrom .declarations (depth + 1) inside [] body

/-- **A statement with a block**: the problems of its head, what its block adds, and the outline of
what follows. -/
theorem outlineFrom_block {q : Forest} {o : Lexeme} (hq : q.Flat) (ho : o.token = .opening .curly)
    (context : Context) (depth pos : Nat) (body : Forest) (closed : Bool) (rest : Forest) :
    outlineFrom context depth pos [] (q ++ .block o body closed rest) =
      .ofProblems (q.problems pos) ++
        ((bodyOf (q.marks pos)).outline context depth (pos + q.size + byteSize o.chars)
            ⟨pos + q.size, pos + q.size + byteSize o.chars + body.size +
              byteSize (closerChars o closed)⟩ closed body ++
          .ofProblems (blockProblems closed (pos + q.size)) ++
          outlineFrom context depth (pos + q.size + byteSize o.chars + body.size +
            byteSize (closerChars o closed)) [] rest) := by
  rw [outlineFrom_head hq, outlineFrom_curly ho, List.append_nil, List.reverse_reverse]
  cases bodyOf (q.marks pos) <;> rfl

/-- **A statement that ends with a semicolon**: its problems, and the outline of what follows. -/
theorem outlineFrom_semicolon {q : Forest} {l : Lexeme} (hq : q.Flat) (hl : l.token = .semicolon)
    (context : Context) (depth pos : Nat) (rest : Forest) :
    outlineFrom context depth pos [] (q ++ .token l rest) =
      .ofProblems (q.problems pos) ++ (.ofProblems (endProblems context (q.marks pos)) ++
        outlineFrom context depth (pos + q.size + byteSize l.chars) [] rest) := by
  rw [outlineFrom_head hq, outlineFrom, if_pos hl, List.append_nil, List.reverse_reverse]

/-- **The last statement** of a forest has its problems and nothing else. -/
theorem outlineFrom_finish {q : Forest} (hq : q.Flat) (context : Context) (depth pos : Nat) :
    outlineFrom context depth pos [] q =
      .ofProblems (q.problems pos ++ endProblems context (q.marks pos)) := by
  have hhead := outlineFrom_head hq context depth pos [] .nil
  rw [Forest.append_nil, outlineFrom, List.append_nil, List.reverse_reverse] at hhead
  rw [hhead]
  rfl

/-! ## Marks that are not solid -/

/-- The marks are whitespace and comments. -/
def Dull (ms : List Mark) : Prop := ∀ m ∈ ms, m.isSolid = false

/-- Dull marks belong to no entry. -/
theorem Dull.isGap {ms : List Mark} (h : Dull ms) : IsGap ms := by
  intro m hm
  simp [Mark.isGap, h m hm]

/-- Dull marks before a statement do not show in its at-rule. -/
theorem Dull.atRule?_append {dull : List Mark} (h : Dull dull) (ms : List Mark) :
    atRule? (dull ++ ms) = atRule? ms := by
  have hnone : dull.find? Mark.isSolid = none := by
    rw [List.find?_eq_none]
    intro m hm
    simp [h m hm]
  rw [atRule?, atRule?, List.find?_append, hnone, Option.none_or]

/-- Dull marks before a statement do not show in the problem of a missing block. -/
theorem Dull.missingBlock_append {dull : List Mark} (h : Dull dull) (ms : List Mark) :
    missingBlock (dull ++ ms) = missingBlock ms := by
  have hdrop : dull.dropWhile (!·.isSolid) = [] := by
    rw [List.dropWhile_eq_nil_iff]
    intro m hm
    simp [h m hm]
  rw [missingBlock, missingBlock, solidRun, solidRun, List.dropWhile_append, hdrop]
  rfl

/-- Dull marks before a statement do not show in it. -/
theorem Dull.statement_eq {dull : List Mark} (h : Dull dull) (ms : List Mark) :
    (∀ context, endProblems context (dull ++ ms) = endProblems context ms) ∧
      bodyOf (dull ++ ms) = bodyOf ms := by
  constructor
  · intro context
    rw [endProblems, endProblems, h.atRule?_append, h.missingBlock_append]
  · rw [bodyOf, bodyOf, h.atRule?_append, entries_gap_append h.isGap]

/-- **Marks that are not solid** do not show at the start of a statement. -/
theorem outlineFrom_dull {dull : List Mark} (h : Dull dull) (context : Context) (depth pos : Nat)
    (seen : List Mark) (f : Forest) :
    outlineFrom context depth pos (seen ++ dull) f = outlineFrom context depth pos seen f := by
  have hreverse : Dull dull.reverse := fun m hm => h m (List.mem_reverse.1 hm)
  induction f generalizing seen pos with
  | nil => rw [outlineFrom, outlineFrom, List.reverse_append, (hreverse.statement_eq _).1]
  | token l rest ih =>
      have hrest := ih (pos + byteSize l.chars) (.ofLexeme l pos :: seen)
      rw [List.cons_append] at hrest
      simp only [outlineFrom, List.reverse_append, (hreverse.statement_eq _).1, hrest]
  | block o body closed rest _ ihr =>
      have hrest := ihr (pos + byteSize o.chars + body.size + byteSize (closerChars o closed))
        (.ofBlock o body closed pos :: seen)
      rw [List.cons_append] at hrest
      simp only [outlineFrom, List.reverse_append, (hreverse.statement_eq _).2, hrest]

/-! ## The faces of marks -/

/-- A mark without its place and its characters. -/
def Mark.bare (m : Mark) : Mark := ⟨m.kind, m.text, [], 0⟩

@[simp] theorem Mark.kind_bare (m : Mark) : m.bare.kind = m.kind := rfl

@[simp] theorem Mark.isSolid_bare (m : Mark) : m.bare.isSolid = m.isSolid := rfl

/-- The marks of a head are the same wherever it stands, apart from their places. -/
theorem Forest.map_bare_marks (f : Forest) (pos pos' : Nat) :
    (f.marks pos).map Mark.bare = (f.marks pos').map Mark.bare := by
  induction f generalizing pos pos' with
  | nil => rfl
  | token l rest ih =>
      rw [marks, marks, List.map_cons, List.map_cons]
      exact congrArg₂ List.cons rfl (ih _ _)
  | block o body closed rest _ ih =>
      rw [marks, marks, List.map_cons, List.map_cons]
      exact congrArg₂ List.cons rfl (ih _ _)

/-- The at-rule does not depend on places. -/
theorem atRule?_map_bare (ms : List Mark) : atRule? (ms.map Mark.bare) = atRule? ms := by
  induction ms with
  | nil => rfl
  | cons m ms ih =>
      simp only [atRule?, List.map_cons, List.find?_cons, Mark.isSolid_bare] at ih ⊢
      cases m.isSolid with
      | true => rfl
      | false => exact ih

/-- Cutting at commas does not depend on places. -/
theorem splitCommas_map_bare (ms : List Mark) :
    splitCommas (ms.map Mark.bare) = (splitCommas ms).map (·.map Mark.bare) := by
  induction ms with
  | nil => rfl
  | cons m ms ih =>
      rw [List.map_cons, splitCommas, splitCommas, ih, Mark.kind_bare]
      split
      · rfl
      · cases splitCommas ms <;> rfl

/-- The text of marks does not depend on places. -/
theorem marksText_map_bare (ms : List Mark) (started gap : Bool) :
    marksText started gap (ms.map Mark.bare) = marksText started gap ms := by
  induction ms generalizing started gap with
  | nil => rfl
  | cons m ms ih =>
      simp only [List.map_cons, marksText, Mark.kind_bare, Mark.isSolid_bare, ih]
      rfl

/-- The texts of the entries do not depend on places. -/
theorem texts_map_bare (ms : List Mark) :
    (entries (ms.map Mark.bare)).map (·.text) = (entries ms).map (·.text) := by
  have hentry : ∀ part : List Mark,
      ( entry? (part.map Mark.bare)).map (·.text) = ( entry? part).map (·.text) := by
    intro part
    have hfilter : (part.map Mark.bare).filter Mark.isSolid =
        (part.filter Mark.isSolid).map Mark.bare := by
      rw [List.filter_map]
      rfl
    rw [ entry?, entry?, hfilter, marksText_map_bare]
    cases part.filter Mark.isSolid <;> rfl
  rw [entries, entries, splitCommas_map_bare, List.map_filterMap, List.map_filterMap,
    List.filterMap_map]
  exact List.filterMap_congr fun part _ => hentry part

/-- Whether a statement misses its block does not depend on places. -/
theorem missingBlock_map_bare (ms : List Mark) :
    missingBlock (ms.map Mark.bare) = [] ↔ missingBlock ms = [] := by
  have hrun : solidRun (ms.map Mark.bare) = (solidRun ms).map Mark.bare := by
    have hdrop : ∀ xs : List Mark, (xs.map Mark.bare).dropWhile (!·.isSolid) =
        (xs.dropWhile (!·.isSolid)).map Mark.bare := fun xs => List.dropWhile_map ..
    rw [solidRun, solidRun, hdrop, ← List.map_reverse, hdrop, ← List.map_reverse]
  rw [missingBlock, missingBlock, hrun]
  cases solidRun ms <;> simp

/-- Two ways to read a block that differ in the places of a selector list at most. -/
def Body.Alike : Body → Body → Prop
  | .group, .group => True
  | .skipped, .skipped => True
  | .style lead others, .style lead' others' =>
      (lead :: others).map Entry.text = (lead' :: others').map Entry.text
  | _, _ => False

/-- **What a statement is** does not depend on the places of its marks. -/
theorem statement_alike {ms ms' : List Mark} (h : ms.map Mark.bare = ms'.map Mark.bare) :
    (∀ context, endProblems context ms = [] ↔ endProblems context ms' = []) ∧
      (bodyOf ms).Alike (bodyOf ms') := by
  have hat : atRule? ms = atRule? ms' := by
    rw [← atRule?_map_bare, h, atRule?_map_bare]
  have htexts : (entries ms).map (·.text) = (entries ms').map (·.text) := by
    rw [← texts_map_bare, h, texts_map_bare]
  constructor
  · intro context
    rw [endProblems, endProblems, hat]
    split
    · rw [← missingBlock_map_bare, h, missingBlock_map_bare]
    · rfl
  · rw [bodyOf, bodyOf, hat]
    cases atRule? ms' with
    | some name =>
        simp only
        split <;> trivial
    | none =>
        simp only
        cases hentries : entries ms with
        | nil =>
            have hnil : entries ms' = [] := by
              rw [hentries] at htexts
              simpa using htexts.symm
            rw [hnil]
            trivial
        | cons lead others =>
            rw [hentries] at htexts
            cases hentries' : entries ms' with
            | nil => simp [hentries'] at htexts
            | cons lead' others' =>
                rw [hentries'] at htexts
                -- the first selector tells a custom property from a rule
                have hlead : lead.text = lead'.text := (List.cons.inj htexts).1
                simp only [hlead]
                split
                · trivial
                · exact htexts

end StyleAudit.Sheet
