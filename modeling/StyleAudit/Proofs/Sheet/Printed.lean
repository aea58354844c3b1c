import Mathlib
import StyleAudit.Proofs.Sheet.Tree

/-! # The outline of a printed tree

The rules of a printed tree are its style rules, and each offset in them can be counted off the lines
of the tree. The statements of a tree begin with whitespace that is left from the line before, so
the walk over a tree carries whitespace marks and nothing else from one node to the next.

* **`entries_listMarks`** — the entries of a printed selector list.
* **`Tree.rules`** — the rules of a printed tree with their offsets.
* **`Tree.Outlines`** — walking over a tree adds its rules and carries on whitespace.
* **`Tree.outline_forest`** — the outline of the forest of a tree. -/

namespace StyleAudit.Sheet

open Text

/-! ## The entries of a printed selector list -/

/-- A name is its own text. -/
theorem Name.renderIdent_chars (n : Name) : renderIdent n.chars = n.chars := by
  have hname : ∀ cs : List Char, (∀ c ∈ cs, isNamePart c = true) → renderName cs = cs := by
    intro cs hcs
    induction cs with
    | nil => rfl
    | cons c cs ih =>
        have hc : renderNameChar c = [c] := if_pos (hcs c (by simp))
        rw [renderName, List.flatMap_cons, hc]
        exact congrArg (c :: ·) (ih fun d hd => hcs d (by simp [hd]))
  have hlower := n.head_lower
  have hfirst : renderFirst n.chars = n.chars := by
    rw [chars, renderFirst, if_neg (by simp [isDigit_of_isLower hlower])]
    exact hname n.chars fun c => n.isNamePart_of_mem
  unfold renderIdent
  split
  · rename_i h
    rw [(List.cons.inj h).1] at hlower
    exact absurd hlower (by decide)
  · rename_i h
    rw [(List.cons.inj h).1] at hlower
    exact absurd hlower (by decide)
  · rename_i h
    rw [(List.cons.inj h).1] at hlower
    exact absurd hlower (by decide)
  · exact hfirst

/-- The marks of a selector are a core that spells its text. -/
theorem Simple.isCore_marksAt (s : Simple) (pos : Nat) :
    IsCore (marksAt pos s.lexemes) ∧
      coreEntry (marksAt pos s.lexemes) = ⟨s.text, ⟨pos, pos + byteSize s.chars⟩⟩ := by
  cases s with
  | tag n =>
      refine ⟨⟨by simp [lexemes, marksAt], by simp [lexemes, marksAt, Mark.ofLexeme, Name.lexeme,
        Mark.Kind.ofToken, Token.isVisible], rfl, rfl⟩, ?_⟩
      simp [coreEntry, lexemes, marksAt, marksText, Mark.isSolid, text, chars, Mark.stop,
        Mark.ofLexeme, Name.lexeme, Mark.Kind.ofToken, Token.isVisible, Token.render, gapChars,
        n.renderIdent_chars]
  | dot n =>
      refine ⟨⟨by simp [lexemes, marksAt], by simp [lexemes, marksAt, Mark.ofLexeme, Name.lexeme,
        Mark.Kind.ofToken, Token.isVisible], rfl, rfl⟩, ?_⟩
      simp [coreEntry, lexemes, marksAt, marksText, Mark.isSolid, text, chars, Mark.stop,
        Mark.ofLexeme, Name.lexeme, Mark.Kind.ofToken, Token.isVisible, Token.render, gapChars,
        n.renderIdent_chars, Nat.add_assoc]
  | hash n =>
      refine ⟨⟨by simp [lexemes, marksAt], by simp [lexemes, marksAt, Mark.ofLexeme,
        Mark.Kind.ofToken, Token.isVisible], rfl, rfl⟩, ?_⟩
      simp [coreEntry, lexemes, marksAt, marksText, Mark.isSolid, text, chars, Mark.stop,
        Mark.ofLexeme, Mark.Kind.ofToken, Token.isVisible, Token.render, gapChars,
        n.renderIdent_chars]

/-- The entries of selectors that are printed from offset `pos` on. -/
def entriesAt : (pos : Nat) → List Simple → List Entry
  | _, [] => []
  | pos, s :: rest =>
      ⟨s.text, ⟨pos, pos + byteSize s.chars⟩⟩ :: entriesAt (pos + byteSize s.chars + 2) rest

/-- Marks that are whitespace. -/
def IsBlank (ms : List Mark) : Prop := ∀ m ∈ ms, m.kind = .space

/-- No marks are whitespace. -/
theorem isBlank_nil : IsBlank [] := by simp [IsBlank]

/-- Whitespace belongs to no entry. -/
theorem IsBlank.isGap {ms : List Mark} (h : IsBlank ms) : IsGap ms := by
  intro m hm
  simp [Mark.isGap, Mark.isSolid, h m hm]

/-- The marks of an indentation are whitespace. -/
theorem isBlank_indent (pos depth : Nat) : IsBlank (marksAt pos (indentLexemes depth)) := by
  rw [indentLexemes]
  split <;> simp [marksAt, IsBlank, Mark.ofLexeme, Mark.Kind.ofToken]

/-- **The entries of a printed selector list.** -/
theorem entries_listMarks (pos : Nat) (lead : Simple) (others : List Simple) :
    entries (marksAt pos (listLexemes lead others ++ [spaceLexeme])) =
      entriesAt pos (lead :: others) := by
  induction others generalizing pos lead with
  | nil =>
      obtain ⟨hcore, hentry⟩ := lead.isCore_marksAt pos
      rw [listLexemes, List.flatMap_nil, List.append_nil, marksAt_append,
        entries_core_gap hcore (by simp [IsGap, marksAt, Mark.ofLexeme, spaceLexeme,
          Mark.Kind.ofToken, Mark.isGap, Mark.isSolid]), hentry]
      rfl
  | cons s others ih =>
      obtain ⟨hcore, hentry⟩ := lead.isCore_marksAt pos
      have hsplit : listLexemes lead (s :: others) ++ [spaceLexeme] =
          lead.lexemes ++ ([⟨.comma, [',']⟩, spaceLexeme] ++
            (listLexemes s others ++ [spaceLexeme])) := by
        simp [listLexemes]
      have hsize : byteSize (charsOf [⟨.comma, [',']⟩, spaceLexeme]) = 2 := rfl
      rw [hsplit, marksAt_append, marksAt_append, entries_core_append hcore, hentry,
        Simple.charsOf_lexemes, hsize, ih]
      · rfl
      · simp [IsGap, marksAt, Mark.ofLexeme, spaceLexeme, Mark.Kind.ofToken, Mark.isGap,
          Mark.isSolid]
      · exact ⟨_, List.mem_cons_self, rfl⟩

/-! ## Statements of a printed tree -/

/-- Whitespace before a statement does not show in its at-rule. -/
theorem IsBlank.atRule?_append {blank ms : List Mark} (h : IsBlank blank) :
    atRule? (blank ++ ms) = atRule? ms := by
  have hnone : blank.find? Mark.isSolid = none := by
    rw [List.find?_eq_none]
    intro m hm
    simp [Mark.isSolid, h m hm]
  rw [atRule?, atRule?, List.find?_append, hnone, Option.none_or]

/-- A statement of whitespace is no problem. -/
theorem IsBlank.endProblems_eq {blank : List Mark} (h : IsBlank blank) (context : Context) :
    endProblems context blank = [] := by
  have hdrop : blank.dropWhile (!·.isSolid) = [] := by
    rw [List.dropWhile_eq_nil_iff]
    intro m hm
    simp [Mark.isSolid, h m hm]
  rw [endProblems]
  split
  · rw [missingBlock, solidRun, hdrop]
    rfl
  · rfl

/-- A selector does not begin like an at-rule. -/
theorem Simple.atRule?_append (s : Simple) (pos : Nat) (ms : List Mark) :
    atRule? (marksAt pos s.lexemes ++ ms) = none := by
  cases s <;> rfl

/-- A selector does not begin like a custom property. -/
theorem Simple.not_startsWith (s : Simple) : startsWith ['-', '-'] s.text.toList = false := by
  have hne : ∀ n : Name, n.head ≠ '-' := fun n h => by
    have := n.head_lower
    rw [h] at this
    exact absurd this (by decide)
  cases s with
  | tag n => simp [text, chars, Name.chars, startsWith, List.isPrefixOf, (hne n).symm]
  | dot n => simp [text, chars, startsWith, List.isPrefixOf]
  | hash n => simp [text, chars, startsWith, List.isPrefixOf]

/-- **A printed selector list** introduces the block of a style rule. -/
theorem bodyOf_listMarks {blank : List Mark} (h : IsBlank blank) (pos : Nat) (lead : Simple)
    (others : List Simple) :
    bodyOf (blank ++ marksAt pos (listLexemes lead others ++ [spaceLexeme])) =
      .style ⟨lead.text, ⟨pos, pos + byteSize lead.chars⟩⟩
        (entriesAt (pos + byteSize lead.chars + 2) others) := by
  have hat : atRule? (blank ++ marksAt pos (listLexemes lead others ++ [spaceLexeme])) = none := by
    rw [h.atRule?_append, listLexemes, List.append_assoc, marksAt_append]
    exact lead.atRule?_append pos _
  rw [bodyOf, hat, entries_gap_append h.isGap, entries_listMarks]
  simp only [entriesAt]
  rw [if_neg (by simp [lead.not_startsWith])]

/-- What introduces a media rule makes it a group. -/
theorem bodyOf_mediaMarks {blank : List Mark} (h : IsBlank blank) (pos : Nat) :
    bodyOf (blank ++ marksAt pos (mediaLexemes ++ [spaceLexeme])) = .group := by
  have hat : atRule? (blank ++ marksAt pos (mediaLexemes ++ [spaceLexeme])) =
      some "media".toList := by
    rw [h.atRule?_append]
    rfl
  rw [bodyOf, hat]
  exact if_pos (by decide)

/-- The tokens of a printed selector list go on with a statement. -/
theorem isQuiet_listLexemes (lead : Simple) (others : List Simple) :
    ∀ l ∈ listLexemes lead others ++ [spaceLexeme], l.token.isQuiet = true := by
  have hsimple : ∀ s : Simple, ∀ l ∈ s.lexemes, l.token.isQuiet = true := by
    intro s
    cases s <;> simp [Simple.lexemes, Name.lexeme, Token.isQuiet, Token.cause?]
  intro l hl
  rw [listLexemes, List.mem_append, List.mem_append, List.mem_flatMap] at hl
  rcases hl with (hl | ⟨s, -, hl⟩) | hl
  · exact hsimple lead l hl
  · simp only [List.mem_append, List.mem_cons, List.not_mem_nil, or_false] at hl
    rcases hl with (rfl | rfl) | hl
    · rfl
    · rfl
    · exact hsimple s l hl
  · rw [List.mem_singleton.1 hl]
    rfl

/-- The tokens that introduce a media rule go on with a statement. -/
theorem isQuiet_mediaLexemes : ∀ l ∈ mediaLexemes ++ [spaceLexeme], l.token.isQuiet = true := by
  intro l hl
  simp only [mediaLexemes, List.cons_append, List.nil_append, List.mem_cons, List.not_mem_nil,
    or_false] at hl
  rcases hl with rfl | rfl | rfl | rfl <;> rfl

/-- The tokens of an indentation go on with a statement. -/
theorem isQuiet_indentLexemes (depth : Nat) :
    ∀ l ∈ indentLexemes depth, l.token.isQuiet = true := by
  rw [indentLexemes]
  split <;> simp [Token.isQuiet, Token.cause?]

/-- Whitespace goes on with whitespace. -/
theorem IsBlank.append {as bs : List Mark} (ha : IsBlank as) (hb : IsBlank bs) :
    IsBlank (as ++ bs) := by
  intro m hm
  exact (List.mem_append.1 hm).elim (ha m) (hb m)

/-- **Walking over whitespace** keeps the statement blank. -/
theorem outlineFrom_indent {seen : List Mark} (h : IsBlank seen) (context : Context)
    (depth pos d : Nat) (f : Forest) :
    ∃ seen', IsBlank seen' ∧ outlineFrom context depth pos seen (.tokens (indentLexemes d) f) =
      outlineFrom context depth (pos + byteSize (indent d)) seen' f := by
  refine ⟨(marksAt pos (indentLexemes d)).reverse ++ seen, ?_, ?_⟩
  · refine IsBlank.append (fun m hm => ?_) h
    exact isBlank_indent pos d m (List.mem_reverse.1 hm)
  · rw [outlineFrom_tokens (isQuiet_indentLexemes d), charsOf_indentLexemes]

/-- Walking over a newline keeps the statement blank. -/
theorem outlineFrom_newline {seen : List Mark} (h : IsBlank seen) (context : Context)
    (depth pos : Nat) (f : Forest) :
    ∃ seen', IsBlank seen' ∧ outlineFrom context depth pos seen (.token newlineLexeme f) =
      outlineFrom context depth (pos + 1) seen' f := by
  refine ⟨.ofLexeme newlineLexeme pos :: seen, fun m hm => ?_, outlineFrom_token rfl _ _ _ _ _⟩
  rcases List.mem_cons.1 hm with rfl | hm
  · rfl
  · exact h m hm

/-- **Walking over declarations** in the block of a style rule adds nothing to an outline. -/
theorem outlineFrom_declarations {seen : List Mark} (h : IsBlank seen) (depth pos d : Nat)
    (ds : List Declaration) (f : Forest) :
    ∃ seen', IsBlank seen' ∧
      outlineFrom .declarations depth pos seen (.tokens (ds.flatMap (·.lineLexemes d)) f) =
        outlineFrom .declarations depth (pos + byteSize (ds.flatMap (·.line d))) seen' f := by
  induction ds generalizing pos seen with
  | nil => exact ⟨seen, h, rfl⟩
  | cons x ds ih =>
      -- the line of `x` ends its statement, and leaves a newline for the next one
      have hsplit : Forest.tokens ((x :: ds).flatMap (·.lineLexemes d)) f =
          .tokens (indentLexemes d ++ [x.property.lexeme, ⟨.colon, [':']⟩, spaceLexeme,
            x.value.lexeme]) (.token ⟨.semicolon, [';']⟩ (.token newlineLexeme
              (.tokens (ds.flatMap (·.lineLexemes d)) f))) := by
        simp [Forest.tokens, Declaration.lineLexemes, Declaration.lexemes]
      have hquiet : ∀ l ∈ indentLexemes d ++ [x.property.lexeme, ⟨.colon, [':']⟩, spaceLexeme,
          x.value.lexeme], l.token.isQuiet = true := by
        intro l hl
        rcases List.mem_append.1 hl with hl | hl
        · exact isQuiet_indentLexemes d l hl
        · simp only [List.mem_cons, List.not_mem_nil, or_false] at hl
          rcases hl with rfl | rfl | rfl | rfl <;> rfl
      have hend : ∀ ms, endProblems .declarations ms = [] := fun ms => by simp [endProblems]
      rw [hsplit, outlineFrom_tokens hquiet]
      rw [outlineFrom, if_pos rfl, hend, Outline.ofProblems_nil_append]
      obtain ⟨blank, hblank, hline⟩ := outlineFrom_newline isBlank_nil
        .declarations depth (pos + byteSize (charsOf (indentLexemes d ++ [x.property.lexeme,
          ⟨.colon, [':']⟩, spaceLexeme, x.value.lexeme])) + byteSize [';'])
        (.tokens (ds.flatMap (·.lineLexemes d)) f)
      obtain ⟨seen', hseen', hrest⟩ := ih hblank (pos + byteSize (x.line d))
      refine ⟨seen', hseen', ?_⟩
      have hpos : pos + byteSize (charsOf (indentLexemes d ++ [x.property.lexeme,
          ⟨.colon, [':']⟩, spaceLexeme, x.value.lexeme])) + byteSize [';'] + 1 =
            pos + byteSize (x.line d) := by
        rw [← Declaration.charsOf_lineLexemes]
        simp [Declaration.lineLexemes, Declaration.lexemes, newlineLexeme, Nat.add_assoc,
          show ';'.utf8Size = 1 from rfl, utf8Size_newline]
      rw [hpos] at hline
      rw [hline, hrest]
      simp [Nat.add_assoc]

/-! ## The rules of a printed tree -/

/-- The offset of the block of a node that is printed from offset `pos` on: the opening brace. -/
def blockStart (depth pos : Nat) (head : List Char) : Nat :=
  pos + byteSize (indent depth) + byteSize head + 1

namespace Tree

/-- The rules of a tree that is printed at a depth from offset `pos` on. -/
def rules (depth pos : Nat) : Tree → List Rule
  | .nil => []
  | .style lead others declarations children rest =>
      let first := pos + byteSize (indent depth)
      let block := blockStart depth pos (listChars lead others)
      let inside := block + 2 + byteSize (declarations.flatMap (·.line (depth + 1)))
      let stop := inside + byteSize (children.lines (depth + 1)) + byteSize (indent depth) + 1
      ⟨⟨lead.text, ⟨first, first + byteSize lead.chars⟩⟩,
          entriesAt (first + byteSize lead.chars + 2) others, ⟨block, stop⟩, true, depth⟩ ::
        (children.rules (depth + 1) inside ++ rest.rules depth (stop + 1))
  | .media children rest =>
      let inside := blockStart depth pos mediaChars + 2
      let stop := inside + byteSize (children.lines (depth + 1)) + byteSize (indent depth) + 1
      children.rules (depth + 1) inside ++ rest.rules depth (stop + 1)

/-- The style rule of a node that is printed at a depth from offset `pos` on. -/
def rule (depth pos : Nat) (lead : Simple) (others : List Simple) (stop : Nat) : Rule :=
  ⟨⟨lead.text, ⟨pos + byteSize (indent depth), pos + byteSize (indent depth) + byteSize lead.chars⟩⟩,
    entriesAt (pos + byteSize (indent depth) + byteSize lead.chars + 2) others,
    ⟨blockStart depth pos (listChars lead others), stop⟩, true, depth⟩

/-- The offset of the children of a style node. -/
def insideStyle (depth pos : Nat) (lead : Simple) (others : List Simple)
    (declarations : List Declaration) : Nat :=
  blockStart depth pos (listChars lead others) + 2 +
    byteSize (declarations.flatMap (·.line (depth + 1)))

/-- The offset of the children of a media node. -/
def insideMedia (depth pos : Nat) : Nat := blockStart depth pos mediaChars + 2

/-- The offset just past the closing brace of a node with children at `inside`. -/
def stopOf (depth inside : Nat) (children : Tree) : Nat :=
  inside + byteSize (children.lines (depth + 1)) + byteSize (indent depth) + 1

/-- The rules of a style node. -/
theorem rules_style (depth pos : Nat) (lead : Simple) (others : List Simple)
    (declarations : List Declaration) (children rest : Tree) :
    rules depth pos (.style lead others declarations children rest) =
      rule depth pos lead others
          (stopOf depth (insideStyle depth pos lead others declarations) children) ::
        (children.rules (depth + 1) (insideStyle depth pos lead others declarations) ++
          rest.rules depth
            (stopOf depth (insideStyle depth pos lead others declarations) children + 1)) :=
  rfl

/-- The rules of a media node. -/
theorem rules_media (depth pos : Nat) (children rest : Tree) :
    rules depth pos (.media children rest) =
      children.rules (depth + 1) (insideMedia depth pos) ++
        rest.rules depth (stopOf depth (insideMedia depth pos) children + 1) :=
  rfl

/-- The opening brace of a node, and its declarations. -/
def braceChars (depth : Nat) (ds : List Declaration) : List Char :=
  [' ', '{', '\n'] ++ ds.flatMap (·.line (depth + 1))

/-- What stands before the children of a node: its indentation, what introduces its block, and its
declarations. -/
def openChars (depth : Nat) (head : List Char) (ds : List Declaration) : List Char :=
  indent depth ++ (head ++ braceChars depth ds)

/-- The last line of a node. -/
def closeChars (depth : Nat) : List Char := indent depth ++ ['}', '\n']

/-- The lines of a style node and of what follows it. -/
theorem lines_style (depth : Nat) (lead : Simple) (others : List Simple)
    (declarations : List Declaration) (children rest : Tree) :
    lines depth (.style lead others declarations children rest) =
      openChars depth (listChars lead others) declarations ++
        (children.lines (depth + 1) ++ (closeChars depth ++ rest.lines depth)) := by
  simp [lines, openChars, braceChars, closeChars]

/-- The lines of a media node and of what follows it. -/
theorem lines_media (depth : Nat) (children rest : Tree) :
    lines depth (.media children rest) =
      openChars depth mediaChars [] ++
        (children.lines (depth + 1) ++ (closeChars depth ++ rest.lines depth)) := by
  simp [lines, openChars, braceChars, closeChars]

/-- The children of a style node stand after what opens it. -/
theorem insideStyle_eq (depth pos : Nat) (lead : Simple) (others : List Simple)
    (declarations : List Declaration) :
    insideStyle depth pos lead others declarations =
      pos + byteSize (openChars depth (listChars lead others) declarations) := by
  simp only [insideStyle, blockStart, openChars, braceChars, byteSize_append, byteSize_cons, byteSize_nil,
    utf8Size_brace, utf8Size_space, utf8Size_newline]
  omega

/-- The children of a media node stand after what opens it. -/
theorem insideMedia_eq (depth pos : Nat) :
    insideMedia depth pos = pos + byteSize (openChars depth mediaChars []) := by
  simp only [insideMedia, blockStart, openChars, braceChars, List.flatMap_nil, byteSize_append,
    byteSize_cons, byteSize_nil, utf8Size_brace, utf8Size_space, utf8Size_newline]
  omega

/-- A node ends with its last line. -/
theorem stopOf_add_one (depth inside : Nat) (children : Tree) :
    stopOf depth inside children + 1 =
      inside + byteSize (children.lines (depth + 1)) + byteSize (closeChars depth) := by
  simp only [stopOf, closeChars, byteSize_append, byteSize_cons, byteSize_nil, utf8Size_closing,
    utf8Size_newline]
  omega

/-- The lines of a style node end where the rest begins. -/
theorem size_style (depth pos : Nat) (lead : Simple) (others : List Simple)
    (declarations : List Declaration) (children rest : Tree) :
    pos + byteSize (lines depth (.style lead others declarations children rest)) =
      stopOf depth (insideStyle depth pos lead others declarations) children + 1 +
        byteSize (rest.lines depth) := by
  rw [stopOf_add_one, insideStyle_eq, lines_style]
  simp only [byteSize_append]
  omega

/-- The lines of a media node end where the rest begins. -/
theorem size_media (depth pos : Nat) (children rest : Tree) :
    pos + byteSize (lines depth (.media children rest)) =
      stopOf depth (insideMedia depth pos) children + 1 + byteSize (rest.lines depth) := by
  rw [stopOf_add_one, insideMedia_eq, lines_media]
  simp only [byteSize_append]
  omega

/-! ## Walking over a printed tree -/

/-- The blocks of the children of a node end with an indentation, which is no problem. -/
theorem outlineFrom_closing {seen : List Mark} (h : IsBlank seen) (context : Context)
    (depth pos d : Nat) :
    outlineFrom context depth pos seen (.tokens (indentLexemes d) .nil) = .empty := by
  obtain ⟨seen', hseen', heq⟩ := outlineFrom_indent h context depth pos d .nil
  have hreverse : IsBlank seen'.reverse := fun m hm => hseen' m (List.mem_reverse.1 hm)
  rw [heq, outlineFrom, hreverse.endProblems_eq]
  rfl

/-- What stands between the braces of a node: a newline, its declarations and children, and the
indentation of the closing brace. -/
def inner (depth : Nat) (ds : List Declaration) (children : Tree) : Forest :=
  .tokens (newlineLexeme :: ds.flatMap (·.lineLexemes (depth + 1)))
    (children.forest (depth + 1) (.tokens (indentLexemes depth) .nil))

/-- The closing brace of a node stands right after what is between the braces. -/
theorem size_inner (depth block : Nat) (ds : List Declaration) (children : Tree) :
    block + 1 + (children.inner depth ds).size + 1 =
      stopOf depth (block + 2 + byteSize (ds.flatMap (·.line (depth + 1)))) children := by
  rw [inner, ← Forest.byteSize_source, Forest.source_tokens, source_forest, Forest.source_tokens]
  simp only [charsOf_cons, charsOf_lineLexemes, charsOf_indentLexemes, newlineLexeme, Forest.source,
    byteSize_append, byteSize_cons, byteSize_nil, List.append_nil, utf8Size_newline, stopOf]
  omega

/-- **Walking over a node**: what stands before its brace decides how its block is read. -/
theorem outlineFrom_node {hd : List Lexeme} (hquiet : ∀ l ∈ hd, l.token.isQuiet = true)
    {seen : List Mark} (hseen : IsBlank seen) (context : Context) (depth pos : Nat)
    (body rest : Forest) :
    ∃ blank, IsBlank blank ∧ ∃ seen', IsBlank seen' ∧
      outlineFrom context depth pos seen (.tokens (indentLexemes depth ++ hd)
        (.block braceLexeme body true (.tokens [newlineLexeme] rest))) =
      (match bodyOf (blank ++ marksAt (pos + byteSize (indent depth)) hd) with
        | .skipped => .empty
        | .group => outlineFrom context (depth + 1)
            (pos + byteSize (indent depth) + byteSize (charsOf hd) + 1) [] body
        | .style lead others =>
            ⟨[⟨lead, others, ⟨pos + byteSize (indent depth) + byteSize (charsOf hd),
              pos + byteSize (indent depth) + byteSize (charsOf hd) + 1 + body.size + 1⟩,
                true, depth⟩], []⟩ ++
              outlineFrom .declarations (depth + 1)
                (pos + byteSize (indent depth) + byteSize (charsOf hd) + 1) [] body) ++
        outlineFrom context depth
          (pos + byteSize (indent depth) + byteSize (charsOf hd) + 1 + body.size + 1 + 1) seen'
          rest := by
  have hall : ∀ l ∈ indentLexemes depth ++ hd, l.token.isQuiet = true := by
    intro l hl
    exact (List.mem_append.1 hl).elim (isQuiet_indentLexemes depth l) (hquiet l)
  have hblank : IsBlank (seen.reverse ++ marksAt pos (indentLexemes depth)) :=
    IsBlank.append (fun m hm => hseen m (List.mem_reverse.1 hm)) (isBlank_indent pos depth)
  -- the indentation is blank, so the marks that count are those of the head
  have hmarks : ((marksAt pos (indentLexemes depth ++ hd)).reverse ++ seen).reverse =
      seen.reverse ++ marksAt pos (indentLexemes depth) ++
        marksAt (pos + byteSize (indent depth)) hd := by
    rw [List.reverse_append, List.reverse_reverse, marksAt_append, charsOf_indentLexemes,
      List.append_assoc]
  have hpos : pos + byteSize (charsOf (indentLexemes depth ++ hd)) =
      pos + byteSize (indent depth) + byteSize (charsOf hd) := by
    rw [charsOf_append, byteSize_append, charsOf_indentLexemes, Nat.add_assoc]
  -- the line break after the block is read with what follows
  obtain ⟨seen', hseen', hrest⟩ := outlineFrom_newline isBlank_nil context
    depth (pos + byteSize (indent depth) + byteSize (charsOf hd) + 1 + body.size + 1) rest
  refine ⟨_, hblank, seen', hseen', ?_⟩
  have hopen : byteSize braceLexeme.chars = 1 := rfl
  have hclose : byteSize (closerChars braceLexeme true) = 1 := rfl
  have hproblems : ∀ n, blockProblems true n = [] := fun _ => rfl
  have htokens : Forest.tokens [newlineLexeme] rest = .token newlineLexeme rest := rfl
  rw [outlineFrom_tokens hall, hpos, outlineFrom_curly rfl, hmarks, hopen, hclose, hproblems,
    htokens, hrest, append_assoc_outline]
  exact congrArg _ (Outline.ofProblems_nil_append _)

/-- Walking over a tree adds its rules to an outline. What the walk carries on is whitespace. -/
def Outlines (t : Tree) : Prop :=
  ∀ (context : Context) (depth pos : Nat) {seen : List Mark}, IsBlank seen → ∀ tail : Forest,
    ∃ seen', IsBlank seen' ∧ outlineFrom context depth pos seen (t.forest depth tail) =
      ⟨t.rules depth pos, []⟩ ++
        outlineFrom context depth (pos + byteSize (t.lines depth)) seen' tail

namespace Outlines

variable {children rest : Tree}

/-- **Between the braces of a node** stand the rules of its children. Declarations stand only where
they may. -/
theorem inner (h : children.Outlines) {context : Context} {ds : List Declaration}
    (hds : context = .declarations ∨ ds = []) (depth block : Nat) :
    outlineFrom context (depth + 1) (block + 1) [] (children.inner depth ds) =
      ⟨children.rules (depth + 1) (block + 2 + byteSize (ds.flatMap (·.line (depth + 1)))), []⟩ := by
  set tail := children.forest (depth + 1) (.tokens (indentLexemes depth) .nil) with htail
  obtain ⟨newline, hnewline, hfirst⟩ := outlineFrom_newline isBlank_nil context (depth + 1)
    (block + 1) (.tokens (ds.flatMap (·.lineLexemes (depth + 1))) tail)
  obtain ⟨blank, hblank, hlines⟩ : ∃ blank, IsBlank blank ∧
      outlineFrom context (depth + 1) (block + 2) newline
          (.tokens (ds.flatMap (·.lineLexemes (depth + 1))) tail) =
        outlineFrom context (depth + 1)
          (block + 2 + byteSize (ds.flatMap (·.line (depth + 1)))) blank tail := by
    rcases hds with rfl | rfl
    · exact outlineFrom_declarations hnewline (depth + 1) (block + 2) (depth + 1) ds tail
    · exact ⟨newline, hnewline, rfl⟩
  obtain ⟨last, hlast, hchildren⟩ := h context (depth + 1)
    (block + 2 + byteSize (ds.flatMap (·.line (depth + 1)))) hblank
    (.tokens (indentLexemes depth) .nil)
  calc outlineFrom context (depth + 1) (block + 1) [] (children.inner depth ds)
      = outlineFrom context (depth + 1) (block + 2) newline
          (.tokens (ds.flatMap (·.lineLexemes (depth + 1))) tail) := hfirst
    _ = _ := by
      rw [hlines, htail, hchildren, outlineFrom_closing hlast]
      exact congrArg (Outline.mk · []) (List.append_nil _)

/-- A style node. -/
theorem style (hc : children.Outlines) (hr : rest.Outlines) (lead : Simple) (others : List Simple)
    (ds : List Declaration) : (Tree.style lead others ds children rest).Outlines := by
  intro context depth pos seen hseen tail
  obtain ⟨blank, hblank, next, hnext, hnode⟩ :=
    outlineFrom_node (isQuiet_listLexemes lead others) hseen context depth pos
      (children.inner depth ds) (rest.forest depth tail)
  have hblock : pos + byteSize (indent depth) +
      byteSize (charsOf (listLexemes lead others ++ [spaceLexeme])) =
        blockStart depth pos (listChars lead others) := by
    simp [blockStart, spaceLexeme, Nat.add_assoc, utf8Size_space]
  rw [bodyOf_listMarks hblank, hblock, size_inner] at hnode
  obtain ⟨seen', hseen', hrest⟩ := hr context depth
    (stopOf depth (insideStyle depth pos lead others ds) children + 1) hnext tail
  refine ⟨seen', hseen', ?_⟩
  calc outlineFrom context depth pos seen (forest depth (.style lead others ds children rest) tail)
      = ⟨[rule depth pos lead others
            (stopOf depth (insideStyle depth pos lead others ds) children)], []⟩ ++
          outlineFrom .declarations (depth + 1)
            (blockStart depth pos (listChars lead others) + 1) [] (children.inner depth ds) ++
          outlineFrom context depth
            (stopOf depth (insideStyle depth pos lead others ds) children + 1) next
            (rest.forest depth tail) := hnode
    _ = _ := by
      rw [hc.inner (.inl rfl), hrest, rules_style, size_style, ← append_assoc_outline]
      rfl

/-- A media node, in whose block no declarations stand. -/
theorem media (hc : children.Outlines) (hr : rest.Outlines) :
    (Tree.media children rest).Outlines := by
  intro context depth pos seen hseen tail
  obtain ⟨blank, hblank, next, hnext, hnode⟩ := outlineFrom_node isQuiet_mediaLexemes hseen context
    depth pos (children.inner depth []) (rest.forest depth tail)
  have hblock : pos + byteSize (indent depth) +
      byteSize (charsOf (mediaLexemes ++ [spaceLexeme])) = blockStart depth pos mediaChars := by
    rw [charsOf_append, byteSize_append, charsOf_mediaLexemes, ← Nat.add_assoc]
    rfl
  rw [bodyOf_mediaMarks hblank, hblock, size_inner] at hnode
  obtain ⟨seen', hseen', hrest⟩ := hr context depth
    (stopOf depth (insideMedia depth pos) children + 1) hnext tail
  refine ⟨seen', hseen', ?_⟩
  calc outlineFrom context depth pos seen (forest depth (.media children rest) tail)
      = outlineFrom context (depth + 1) (blockStart depth pos mediaChars + 1) []
            (children.inner depth []) ++
          outlineFrom context depth (stopOf depth (insideMedia depth pos) children + 1) next
            (rest.forest depth tail) := hnode
    _ = _ := by
      rw [hc.inner (.inr rfl), hrest, rules_media, size_media, ← append_assoc_outline]
      rfl

end Outlines

/-- **The outline of the forest of a tree.** What the walk carries on from it is whitespace. -/
theorem outline_forest (t : Tree) : t.Outlines := by
  induction t with
  | nil => exact fun _ _ _ seen hseen _ => ⟨seen, hseen, rfl⟩
  | style lead others ds children rest ihc ihr => exact ihc.style ihr lead others ds
  | media children rest ihc ihr => exact ihc.media ihr

end Tree

end StyleAudit.Sheet
