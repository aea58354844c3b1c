import Mathlib
import StyleAudit.Proofs.Sheet.Statement

/-! # Sheets as trees

A sheet that is printed from a tree has each node on its own lines, indented by its depth. This
file says what such a sheet reads as: the lexemes that its text splits into, and the forest that
they make.

* **`Tree`** — style rules with declarations and children, and media rules with children.
* **`Tree.lines`, `Tree.render`** — a tree as it is printed.
* **`Tree.prune`** — a tree without the selectors of a set.
* **`Tree.styles`** — the style rules of a tree, with their depths.
* **`Tree.forest`** — the blocks of a printed tree. -/

namespace StyleAudit.Sheet

open Text

/-! ## Names, selectors and declarations -/

/-- A letter followed by letters, digits and hyphens, all in lower case. -/
structure Name where
  head : Char
  tail : List Char
  head_lower : head.isLower = true
  tail_plain : ∀ c ∈ tail, (c.isLower || c.isDigit || c == '-') = true

/-- A selector of one part. -/
inductive Simple where
  | tag (name : Name)
  | dot (name : Name)
  | hash (name : Name)

/-- The declaration of a property. -/
structure Declaration where
  property : Name
  value : Name

namespace Name

/-- The characters of a name. -/
def chars (n : Name) : List Char := n.head :: n.tail

/-- The lexeme of a name. -/
def lexeme (n : Name) : Lexeme := ⟨.ident n.chars, n.chars⟩

end Name

namespace Simple

/-- The lexemes of a selector. -/
def lexemes : Simple → List Lexeme
  | .tag n => [n.lexeme]
  | .dot n => [⟨.delim '.', ['.']⟩, n.lexeme]
  | .hash n => [⟨.hash n.chars true, '#' :: n.chars⟩]

/-- The characters of a selector: a name, on its own or after a dot or a hash. -/
def chars : Simple → List Char
  | .tag n => n.chars
  | .dot n => '.' :: n.chars
  | .hash n => '#' :: n.chars

/-- The text of a selector. -/
def text (s : Simple) : String := String.ofList s.chars

end Simple

/-- A declaration as it is printed. -/
def Declaration.chars (d : Declaration) : List Char :=
  d.property.chars ++ ([':', ' '] ++ (d.value.chars ++ [';']))

/-! ## Trees -/

/-- A list of nodes: style rules with a selector list that is not empty, declarations and children,
and media rules with children. -/
inductive Tree where
  | nil
  | style (lead : Simple) (others : List Simple) (declarations : List Declaration)
      (children rest : Tree)
  | media (children rest : Tree)

@[simp] theorem utf8Size_space : ' '.utf8Size = 1 := rfl

@[simp] theorem utf8Size_newline : '\n'.utf8Size = 1 := rfl

@[simp] theorem utf8Size_comma : ','.utf8Size = 1 := rfl

@[simp] theorem utf8Size_closing : '}'.utf8Size = 1 := rfl

/-- The indentation of a line. -/
def indent (depth : Nat) : List Char := List.replicate (2 * depth) ' '

/-- A selector list as it is printed. -/
def listChars (lead : Simple) (others : List Simple) : List Char :=
  lead.chars ++ others.flatMap fun s => [',', ' '] ++ s.chars

/-- What introduces the block of a media rule. -/
def mediaChars : List Char := "@media print".toList

/-- The line of a declaration. -/
def Declaration.line (depth : Nat) (d : Declaration) : List Char :=
  indent depth ++ (d.chars ++ ['\n'])

namespace Tree

/-- The lines of a tree at a depth. -/
def lines (depth : Nat) : Tree → List Char
  | .nil => []
  | .style lead others declarations children rest =>
      indent depth ++ (listChars lead others ++ ([' ', '{', '\n'] ++
        (declarations.flatMap (·.line (depth + 1)) ++ (children.lines (depth + 1) ++
          (indent depth ++ (['}', '\n'] ++ rest.lines depth))))))
  | .media children rest =>
      indent depth ++ (mediaChars ++ ([' ', '{', '\n'] ++ (children.lines (depth + 1) ++
        (indent depth ++ (['}', '\n'] ++ rest.lines depth)))))

/-- A tree as it is printed. -/
def render (t : Tree) : String := String.ofList (t.lines 0)

/-- A tree without the selectors of a set. A style rule that keeps no selector goes with its
children; a media rule stays. -/
def prune (targets : SelectorSet) : Tree → Tree
  | .nil => .nil
  | .style lead others declarations children rest =>
      match (lead :: others).filter (fun s => s.text ∉ targets) with
      | [] => rest.prune targets
      | lead' :: others' =>
          .style lead' others' declarations (children.prune targets) (rest.prune targets)
  | .media children rest => .media (children.prune targets) (rest.prune targets)

/-- The style rules of a tree in the order of their lines: the texts of the selectors, and the
depth. -/
def styles (depth : Nat) : Tree → List (List String × Nat)
  | .nil => []
  | .style lead others _ children rest =>
      ((lead :: others).map Simple.text, depth) ::
        (children.styles (depth + 1) ++ rest.styles depth)
  | .media children rest => children.styles (depth + 1) ++ rest.styles depth

end Tree

/-! ## Reading names -/

/-- A character of a name goes on with a name. -/
theorem isNamePart_of_plain {c : Char} (h : (c.isLower || c.isDigit || c == '-') = true) :
    isNamePart c = true := by
  simp only [Bool.or_eq_true, beq_iff_eq] at h
  rcases h with (h | h) | rfl
  · simp [isNamePart, Char.isAlphanum, Char.isAlpha, h]
  · simp [isNamePart, Char.isAlphanum, h]
  · decide

/-- Every character of a name goes on with a name. -/
theorem Name.isNamePart_of_mem {n : Name} {c : Char} (h : c ∈ n.chars) : isNamePart c = true := by
  rcases List.mem_cons.1 h with rfl | h
  · exact isNamePart_of_plain (by simp [n.head_lower])
  · exact isNamePart_of_plain (n.tail_plain c h)

/-- What follows a name and does not go on with it. -/
def EndsName (r : List Char) : Prop := scanName r = ([], 0) ∧ ∀ cs, r ≠ '(' :: cs

/-- Each of the characters after a printed name ends it. -/
theorem endsName_cons {c : Char} (hc : c ∈ [' ', ',', ':', ';']) (r : List Char) :
    EndsName (c :: r) := by
  simp only [List.mem_cons, List.not_mem_nil, or_false] at hc
  rcases hc with rfl | rfl | rfl | rfl <;> exact ⟨by rfl, by simp⟩

/-- A name is read up to its end. -/
theorem scanName_append {xs r : List Char} (hxs : ∀ c ∈ xs, isNamePart c = true)
    (hr : scanName r = ([], 0)) : scanName (xs ++ r) = (xs, xs.length) := by
  induction xs with
  | nil => exact hr
  | cons c xs ih =>
      have ih := ih fun d hd => hxs d (by simp [hd])
      rw [scanName] at ih ⊢
      rw [List.cons_append, scanNameFrom, if_pos (hxs c (by simp)), ih]
      rfl

/-- An identifier lies ahead where a name stands. -/
theorem Name.identAhead_append (n : Name) (r : List Char) : identAhead (n.chars ++ r) = true := by
  have hlower := n.head_lower
  have hstart : isNameStart n.head = true := by simp [isNameStart, Char.isAlpha, hlower]
  rw [chars, List.cons_append]
  unfold identAhead
  split
  · rename_i h
    rw [(List.cons.inj h).1] at hlower
    exact absurd hlower (by decide)
  · rename_i h
    rw [(List.cons.inj h).1] at hlower
    exact absurd hlower (by decide)
  · rename_i h
    rw [(List.cons.inj h).1] at hlower
    exact absurd hlower (by decide)
  · rename_i h
    rw [← (List.cons.inj h).1]
    exact hstart
  · rename_i h
    simp at h

/-- A letter in lower case is no digit. -/
theorem isDigit_of_isLower {c : Char} (h : c.isLower = true) : c.isDigit = false := by
  by_contra hc
  rw [Bool.not_eq_false] at hc
  simp only [Char.isLower, Char.isDigit, Bool.and_eq_true, decide_eq_true_eq] at h hc
  exact absurd (UInt32.le_trans h.1 hc.2) (by decide)

/-- A letter begins what reads like an identifier. -/
theorem next_of_isLower {c : Char} {cs : List Char} (h : c.isLower = true)
    (hident : identAhead (c :: cs) = true) :
    Token.next c cs = afterFirst (scanIdentLike (c :: cs)) := by
  have hspace : isSpace c = false := by
    by_contra hc
    simp only [isSpace, isNewline, Bool.not_eq_false, Bool.or_eq_true, beq_iff_eq] at hc
    rcases hc with (rfl | rfl) | (rfl | rfl) | rfl <;> exact absurd h (by decide)
  have hdigit := isDigit_of_isLower h
  unfold Token.next
  rw [if_neg (by simp [hspace]), if_neg (by simp [hdigit])]
  split
  all_goals first | exact absurd h (by decide) | rw [if_pos hident]

/-- A dot begins a number only in front of a digit. -/
theorem next_dot (cs : List Char) :
    Token.next '.' cs =
      if digitAhead cs then afterFirst (scanNumeric ('.' :: cs)) else (.delim '.', 0) :=
  rfl

/-- A hash takes the name after it. -/
theorem next_hash_of_identAhead {cs : List Char} (h : identAhead cs = true) :
    Token.next '#' cs = (.hash (scanName cs).1 true, (scanName cs).2) := by
  have hnext : Token.next '#' cs =
      if identAhead cs then (.hash (scanName cs).1 true, (scanName cs).2)
      else if digitAhead cs || cs.head? == some '-' then
        (.hash (scanName cs).1 false, (scanName cs).2)
      else (.delim '#', 0) := rfl
  rw [hnext, if_pos h]

/-- A name is read as an identifier. -/
theorem Name.reads_lexeme (n : Name) {r : List Char} (hr : EndsName r) : n.lexeme.Reads r := by
  have hscan := scanName_append (fun c => n.isNamePart_of_mem) hr.1
  have hnext : Token.next n.head (n.tail ++ r) = (.ident n.chars, n.tail.length) := by
    have hident := n.identAhead_append r
    rw [chars, List.cons_append] at hident hscan
    rw [next_of_isLower n.head_lower hident, scanIdentLike, hscan]
    have hdrop : (n.head :: (n.tail ++ r)).drop (n.head :: n.tail).length = r := by simp
    simp only [hdrop]
    split
    · rename_i rest
      exact absurd rfl (hr.2 rest)
    · rfl
  refine ⟨n.head, n.tail, rfl, ?_, ?_⟩
  · rw [hnext]
    rfl
  · rw [hnext]
    simp

/-! ## The lexemes of a printed tree -/

/-- A space, as a lexeme. -/
def spaceLexeme : Lexeme := ⟨.whitespace, [' ']⟩

/-- A newline, as a lexeme. -/
def newlineLexeme : Lexeme := ⟨.whitespace, ['\n']⟩

/-- An opening brace, as a lexeme. -/
def braceLexeme : Lexeme := ⟨.opening .curly, ['{']⟩

/-- The indentation of a line, as lexemes: none where it is empty. -/
def indentLexemes (depth : Nat) : List Lexeme :=
  if depth = 0 then [] else [⟨.whitespace, indent depth⟩]

/-- The lexemes of a selector list. -/
def listLexemes (lead : Simple) (others : List Simple) : List Lexeme :=
  lead.lexemes ++ others.flatMap fun s => [⟨.comma, [',']⟩, spaceLexeme] ++ s.lexemes

/-- The lexemes that introduce the block of a media rule. -/
def mediaLexemes : List Lexeme :=
  [⟨.atKeyword "media".toList, "@media".toList⟩, spaceLexeme,
    ⟨.ident "print".toList, "print".toList⟩]

/-- The lexemes of a declaration. -/
def Declaration.lexemes (d : Declaration) : List Lexeme :=
  [d.property.lexeme, ⟨.colon, [':']⟩, spaceLexeme, d.value.lexeme, ⟨.semicolon, [';']⟩]

/-- The lexemes of the line of a declaration. -/
def Declaration.lineLexemes (depth : Nat) (d : Declaration) : List Lexeme :=
  indentLexemes depth ++ (d.lexemes ++ [newlineLexeme])

/-- The characters of a selector are those of its lexemes. -/
@[simp] theorem Simple.charsOf_lexemes (s : Simple) : charsOf s.lexemes = s.chars := by
  cases s <;> simp [lexemes, chars, Name.lexeme]

/-- The characters of an indentation. -/
@[simp] theorem charsOf_indentLexemes (depth : Nat) : charsOf (indentLexemes depth) = indent depth := by
  rw [indentLexemes]
  split
  · rename_i h
    simp [h, indent]
  · simp

/-- The characters of a selector list are those of its lexemes. -/
@[simp] theorem charsOf_listLexemes (lead : Simple) (others : List Simple) :
    charsOf (listLexemes lead others) = listChars lead others := by
  have hothers : charsOf (others.flatMap fun s => [⟨.comma, [',']⟩, spaceLexeme] ++ s.lexemes) =
      others.flatMap fun s => [',', ' '] ++ s.chars := by
    induction others with
    | nil => rfl
    | cons s others ih =>
        simp only [List.flatMap_cons, charsOf_append, ih, Simple.charsOf_lexemes]
        rfl
  rw [listLexemes, charsOf_append, Simple.charsOf_lexemes, hothers, listChars]

/-- The characters that introduce a media rule are those of its lexemes. -/
@[simp] theorem charsOf_mediaLexemes : charsOf mediaLexemes = mediaChars := by
  decide

/-- The characters of the line of a declaration are those of its lexemes. -/
@[simp] theorem Declaration.charsOf_lineLexemes (depth : Nat) (d : Declaration) :
    charsOf (d.lineLexemes depth) = d.line depth := by
  simp [lineLexemes, lexemes, line, chars, Name.lexeme, spaceLexeme, newlineLexeme]

/-- The characters of the lines of declarations are those of their lexemes. -/
@[simp] theorem charsOf_lineLexemes (depth : Nat) (ds : List Declaration) :
    charsOf (ds.flatMap (·.lineLexemes depth)) = ds.flatMap (·.line depth) := by
  induction ds with
  | nil => rfl
  | cons d ds ih => simp [ih]

/-! ## Splitting a printed tree -/

/-- Whitespace may be split off anywhere. -/
theorem splits_space_cons {w : List Char} {ls : List Lexeme} {r : List Char} (hne : w ≠ [])
    (hw : ∀ c ∈ w, isSpace c = true) (h : Splits ls r) : Splits (⟨.whitespace, w⟩ :: ls) r :=
  ⟨.inl ⟨rfl, hne, hw⟩, h⟩

/-- A space may be split off anywhere. -/
theorem splits_spaceLexeme {ls : List Lexeme} {r : List Char} (h : Splits ls r) :
    Splits (spaceLexeme :: ls) r :=
  splits_space_cons (by simp) (fun c hc => by rw [List.mem_singleton.1 hc]; decide) h

/-- A newline may be split off anywhere. -/
theorem splits_newlineLexeme {ls : List Lexeme} {r : List Char} (h : Splits ls r) :
    Splits (newlineLexeme :: ls) r :=
  splits_space_cons (by simp) (fun c hc => by rw [List.mem_singleton.1 hc]; decide) h

/-- An indentation may be split off anywhere. -/
theorem splits_indentLexemes (depth : Nat) {ls : List Lexeme} {r : List Char} (h : Splits ls r) :
    Splits (indentLexemes depth ++ ls) r := by
  rw [indentLexemes]
  split
  · exact h
  · rename_i hdepth
    refine splits_space_cons ?_ (fun c hc => ?_) h
    · simp [indent, hdepth]
    · rw [List.eq_of_mem_replicate hc]
      decide

/-- A selector is read where a character follows that ends its name. -/
theorem Simple.splits_lexemes_append (s : Simple) {ls : List Lexeme} {r : List Char}
    (hr : EndsName (charsOf ls ++ r)) (h : Splits ls r) : Splits (s.lexemes ++ ls) r := by
  cases s with
  | tag n => exact ⟨.inr (n.reads_lexeme hr), h⟩
  | dot n =>
      refine ⟨.inr ⟨'.', [], rfl, ?_, ?_⟩, .inr (n.reads_lexeme hr), h⟩
      all_goals
        have hdigit : digitAhead (n.chars ++ (charsOf ls ++ r)) = false := by
          exact isDigit_of_isLower n.head_lower
        have hnext : Token.next '.' (n.chars ++ (charsOf ls ++ r)) = (.delim '.', 0) := by
          rw [next_dot, hdigit]
          rfl
        simp [Name.lexeme, hnext]
  | hash n =>
      have hnext : Token.next '#' (n.chars ++ (charsOf ls ++ r)) =
          (.hash n.chars true, n.chars.length) := by
        rw [next_hash_of_identAhead (n.identAhead_append _),
          scanName_append (fun c => n.isNamePart_of_mem) hr.1]
      have hreads : (⟨.hash n.chars true, '#' :: n.chars⟩ : Lexeme).Reads (charsOf ls ++ r) :=
        ⟨'#', n.chars, rfl, by rw [hnext], by rw [hnext]; simp⟩
      exact ⟨.inr hreads, h⟩

/-- Punctuation is read whatever follows. -/
theorem splits_punctuation {t : Token} {c : Char} {ls : List Lexeme} {r : List Char}
    (h : (t, c) ∈ [(Token.comma, ','), (.colon, ':'), (.semicolon, ';'), (.opening .curly, '{'),
      (.closing .curly, '}')]) (hls : Splits ls r) : Splits (⟨t, [c]⟩ :: ls) r := by
  refine ⟨.inr ⟨c, [], rfl, ?_, ?_⟩, hls⟩
  all_goals
    simp only [List.mem_cons, Prod.mk.injEq, List.not_mem_nil, or_false] at h
    rcases h with ⟨rfl, rfl⟩ | ⟨rfl, rfl⟩ | ⟨rfl, rfl⟩ | ⟨rfl, rfl⟩ | ⟨rfl, rfl⟩ <;> rfl

/-- A selector list is read in front of a space. -/
theorem splits_listLexemes (lead : Simple) (others : List Simple) {ls : List Lexeme} {r : List Char}
    (h : Splits ls r) : Splits (listLexemes lead others ++ spaceLexeme :: ls) r := by
  rw [listLexemes, List.append_assoc]
  induction others generalizing lead with
  | nil =>
      exact lead.splits_lexemes_append (endsName_cons (by simp) _) (splits_spaceLexeme h)
  | cons s others ih =>
      refine lead.splits_lexemes_append (endsName_cons (by simp) _) ?_
      simp only [List.flatMap_cons, List.append_assoc, List.cons_append, List.nil_append]
      exact splits_punctuation (by simp) (splits_spaceLexeme (ih s))

/-- What introduces a media rule is read in front of a space. -/
theorem splits_mediaLexemes {ls : List Lexeme} {r : List Char} (h : Splits ls r) :
    Splits (mediaLexemes ++ spaceLexeme :: ls) r :=
  ⟨.inr ⟨'@', "media".toList, rfl, rfl, rfl⟩, splits_spaceLexeme
    ⟨.inr ⟨'p', "rint".toList, rfl, rfl, rfl⟩, splits_spaceLexeme h⟩⟩

/-- The lines of declarations are read in front of anything. -/
theorem splits_lineLexemes (depth : Nat) (ds : List Declaration) {ls : List Lexeme} {r : List Char}
    (h : Splits ls r) : Splits (ds.flatMap (·.lineLexemes depth) ++ ls) r := by
  induction ds with
  | nil => exact h
  | cons d ds ih =>
      simp only [List.flatMap_cons, List.append_assoc, Declaration.lineLexemes,
        Declaration.lexemes, List.cons_append, List.nil_append]
      refine splits_indentLexemes depth
        ⟨.inr (d.property.reads_lexeme (endsName_cons (by simp) _)), ?_⟩
      refine splits_punctuation (by simp) (splits_spaceLexeme
        ⟨.inr (d.value.reads_lexeme (endsName_cons (by simp) _)), ?_⟩)
      exact splits_punctuation (by simp) (splits_newlineLexeme ih)

/-! ## The forest of a printed tree -/

/-- The blocks of the lines of a tree, with `tail` after them. -/
def Tree.forest (depth : Nat) : Tree → (tail : Forest) → Forest
  | .nil, tail => tail
  | .style lead others declarations children rest, tail =>
      .tokens (indentLexemes depth ++ (listLexemes lead others ++ [spaceLexeme]))
        (.block braceLexeme
          (.tokens (newlineLexeme :: declarations.flatMap (·.lineLexemes (depth + 1)))
            (children.forest (depth + 1) (.tokens (indentLexemes depth) .nil)))
          true (.tokens [newlineLexeme] (rest.forest depth tail)))
  | .media children rest, tail =>
      .tokens (indentLexemes depth ++ (mediaLexemes ++ [spaceLexeme]))
        (.block braceLexeme
          (.tokens [newlineLexeme] (children.forest (depth + 1) (.tokens (indentLexemes depth) .nil)))
          true (.tokens [newlineLexeme] (rest.forest depth tail)))

/-- The forest of a tree is made of its lines. -/
theorem Tree.source_forest (t : Tree) (depth : Nat) (tail : Forest) :
    (t.forest depth tail).source = t.lines depth ++ tail.source := by
  induction t generalizing depth tail with
  | nil => rfl
  | style lead others declarations children rest ihc ihr =>
      simp [forest, lines, Forest.source, ihc, ihr, braceLexeme, spaceLexeme, newlineLexeme,
        closerChars, Lexeme.bracket, Token.opens?, Bracket.closer]
  | media children rest ihc ihr =>
      simp [forest, lines, Forest.source, ihc, ihr, braceLexeme, spaceLexeme, newlineLexeme,
        closerChars, Lexeme.bracket, Token.opens?, Bracket.closer]

/-- A selector has no brackets. -/
theorem Simple.not_bracket (s : Simple) :
    ∀ l ∈ s.lexemes, l.token.opens? = none ∧ l.token.closes? = none := by
  cases s <;> simp [lexemes, Name.lexeme, Token.opens?, Token.closes?]

/-- An indentation has no brackets. -/
theorem not_bracket_indentLexemes (depth : Nat) :
    ∀ l ∈ indentLexemes depth, l.token.opens? = none ∧ l.token.closes? = none := by
  rw [indentLexemes]
  split <;> simp [Token.opens?, Token.closes?]

/-- A selector list has no brackets. -/
theorem not_bracket_listLexemes (lead : Simple) (others : List Simple) :
    ∀ l ∈ listLexemes lead others, l.token.opens? = none ∧ l.token.closes? = none := by
  intro l hl
  rw [listLexemes, List.mem_append, List.mem_flatMap] at hl
  rcases hl with hl | ⟨s, -, hl⟩
  · exact lead.not_bracket l hl
  · simp only [List.mem_append, List.mem_cons, List.not_mem_nil, or_false] at hl
    rcases hl with (rfl | rfl) | hl
    · exact ⟨rfl, rfl⟩
    · exact ⟨rfl, rfl⟩
    · exact s.not_bracket l hl

/-- The lines of declarations have no brackets. -/
theorem not_bracket_lineLexemes (depth : Nat) (ds : List Declaration) :
    ∀ l ∈ ds.flatMap (·.lineLexemes depth), l.token.opens? = none ∧ l.token.closes? = none := by
  intro l hl
  obtain ⟨d, -, hl⟩ := List.mem_flatMap.1 hl
  rw [Declaration.lineLexemes, List.mem_append] at hl
  rcases hl with hl | hl
  · exact not_bracket_indentLexemes depth l hl
  · simp only [Declaration.lexemes, List.cons_append, List.nil_append, List.mem_cons,
      List.not_mem_nil, or_false] at hl
    rcases hl with rfl | rfl | rfl | rfl | rfl | rfl <;> exact ⟨rfl, rfl⟩

/-- The forest of a tree is balanced. -/
theorem Tree.balanced_forest (t : Tree) (depth : Nat) {tail : Forest} {within : Option Bracket}
    (htail : tail.Balanced within) : (t.forest depth tail).Balanced within := by
  have hindent : ∀ d (w : Option Bracket),
      (Forest.tokens (indentLexemes d) .nil).Balanced w := fun d w =>
    .tokens (not_bracket_indentLexemes d) trivial
  have hspace : ∀ l ∈ [spaceLexeme], l.token.opens? = none ∧ l.token.closes? = none := by
    simp [spaceLexeme, Token.opens?, Token.closes?]
  have hnewline : ∀ l ∈ [newlineLexeme], l.token.opens? = none ∧ l.token.closes? = none := by
    simp [newlineLexeme, Token.opens?, Token.closes?]
  induction t generalizing depth tail within with
  | nil => exact htail
  | style lead others declarations children rest ihc ihr =>
      refine .tokens (fun l hl => ?_) ⟨rfl, rfl, .tokens (fun l hl => ?_) (ihc _ (hindent _ _)),
        .tokens hnewline (ihr _ htail)⟩
      · rcases List.mem_append.1 hl with hl | hl
        · exact not_bracket_indentLexemes depth l hl
        · rcases List.mem_append.1 hl with hl | hl
          · exact not_bracket_listLexemes lead others l hl
          · exact hspace l hl
      · rcases List.mem_cons.1 hl with rfl | hl
        · exact hnewline _ (by simp)
        · exact not_bracket_lineLexemes _ declarations l hl
  | media children rest ihc ihr =>
      refine .tokens (fun l hl => ?_) ⟨rfl, rfl, .tokens hnewline (ihc _ (hindent _ _)),
        .tokens hnewline (ihr _ htail)⟩
      rcases List.mem_append.1 hl with hl | hl
      · exact not_bracket_indentLexemes depth l hl
      · simp only [mediaLexemes, List.cons_append, List.nil_append, List.mem_cons,
          List.not_mem_nil, or_false] at hl
        rcases hl with rfl | rfl | rfl | rfl <;> exact ⟨rfl, rfl⟩

/-- A block between braces splits its text when its contents and what follows do. -/
theorem splits_block {body rest : Forest} {r : List Char}
    (hbody : ∀ q, Splits body.lexemes q) (hrest : Splits rest.lexemes r) :
    Splits (Forest.block braceLexeme body true (.tokens [newlineLexeme] rest)).lexemes r := by
  have hclose : Splits (⟨.closing .curly, ['}']⟩ :: newlineLexeme :: rest.lexemes) r :=
    splits_punctuation (by simp) (splits_newlineLexeme hrest)
  have hinside := splits_append.2 ⟨hbody _, hclose⟩
  have hblock : Splits (braceLexeme :: (body.lexemes ++
      ⟨.closing .curly, ['}']⟩ :: newlineLexeme :: rest.lexemes)) r :=
    splits_punctuation (by simp) hinside
  simpa [Forest.lexemes, closerLexemes, closerOf, Lexeme.bracket, braceLexeme, Token.opens?,
    Bracket.closer] using hblock

/-- The lexemes of the forest of a tree split its text. -/
theorem Tree.splits_forest (t : Tree) (depth : Nat) {tail : Forest} {r : List Char}
    (htail : Splits tail.lexemes r) : Splits (t.forest depth tail).lexemes r := by
  have hindent : ∀ d q, Splits (Forest.tokens (indentLexemes d) .nil).lexemes q := by
    intro d q
    rw [Forest.lexemes_tokens]
    exact splits_indentLexemes d trivial
  induction t generalizing depth tail r with
  | nil => exact htail
  | style lead others declarations children rest ihc ihr =>
      rw [forest, Forest.lexemes_tokens, List.append_assoc, List.append_assoc,
        List.singleton_append]
      refine splits_indentLexemes depth (splits_listLexemes lead others
        (splits_block (fun q => ?_) (ihr depth htail)))
      rw [Forest.lexemes_tokens, List.cons_append]
      exact splits_newlineLexeme (splits_lineLexemes _ _ (ihc _ (hindent depth q)))
  | media children rest ihc ihr =>
      rw [forest, Forest.lexemes_tokens, List.append_assoc, List.append_assoc,
        List.singleton_append]
      refine splits_indentLexemes depth (splits_mediaLexemes
        (splits_block (fun q => ?_) (ihr depth htail)))
      rw [Forest.lexemes_tokens]
      exact splits_newlineLexeme (ihc _ (hindent depth q))

/-- **The outline of a printed tree** is that of its forest. -/
theorem Tree.ofText_render (t : Tree) :
    Outline.ofText t.render = outlineFrom .ruleList 0 0 [] (t.forest 0 .nil) := by
  have hsource := t.source_forest 0 .nil
  rw [Forest.source, List.append_nil] at hsource
  rw [Outline.ofText, render, String.toList_ofList, ← hsource]
  have hbalanced : (t.forest 0 .nil).Balanced none := t.balanced_forest 0 trivial
  exact Outline.ofChars_source (t.splits_forest 0 trivial) hbalanced.nested

end StyleAudit.Sheet
