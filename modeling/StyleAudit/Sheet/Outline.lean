import StyleAudit.Selector.Set
import StyleAudit.Sheet.Problem
import StyleAudit.Text.Blank
import StyleAudit.Text.Span

/-! # Outlines

The outline of a stylesheet lists its style rules: the entries of each selector list with their
spans, and the span of the block. A statement is a run of tokens up to a `;` or a `{…}` block.

* **`Entry`, `Rule`, `Outline`** — the parts of an outline.
* **`Mark`** — what an outline keeps of a token that stands before a statement's end.
* **`entries`** — the selector list that a run of marks spells.
* **`Outline.ofText`** — the outline of a text.
* **`declared?`** — the selectors that a stylesheet declares, or why it is refused. -/

namespace StyleAudit.Sheet

/-! ## Rules -/

/-- An entry of a selector list and where it stands. -/
structure Entry where
  text : String
  span : Span
  deriving DecidableEq, Repr, Inhabited

/-- A style rule: a selector list and a block. -/
structure Rule where
  /-- The first entry of the selector list. -/
  lead : Entry
  /-- The other entries. -/
  others : List Entry
  /-- From the opening bracket to just past the closing one. -/
  block : Span
  /-- Whether the block is closed before the end of the text. -/
  closed : Bool
  /-- The number of enclosing blocks. -/
  depth : Nat
  deriving DecidableEq, Repr, Inhabited

namespace Rule

/-- The selector list. -/
def entries (r : Rule) : List Entry := r.lead :: r.others

/-- The last entry of the selector list. -/
def lastEntry (r : Rule) : Entry := r.others.getLast?.getD r.lead

/-- From the first byte of the first entry to the last byte of the last one. -/
def prelude (r : Rule) : Span := ⟨r.lead.span.start, r.lastEntry.span.stop⟩

/-- Whether `selector` is an entry of the list. -/
def declares (r : Rule) (selector : String) : Bool := r.entries.any (·.text == selector)

end Rule

/-- The style rules of a text in the order of their preludes, and what is wrong with the text. -/
structure Outline where
  rules : List Rule
  problems : List Problem
  deriving DecidableEq, Repr, Inhabited

namespace Outline

/-- The outline with neither rules nor problems. -/
def empty : Outline := ⟨[], []⟩

/-- The outline of two texts that follow each other. -/
def append (a b : Outline) : Outline := ⟨a.rules ++ b.rules, a.problems ++ b.problems⟩

instance : Append Outline := ⟨append⟩

/-- An outline that only records problems. -/
def ofProblems (ps : List Problem) : Outline := ⟨[], ps⟩

end Outline

/-! ## Statements -/

/-- What a token or a block before the end of a statement contributes to it. -/
inductive Mark.Kind where
  /-- Whitespace. -/
  | space
  /-- A comment, or a token that is a problem. -/
  | ignored
  | comma
  | atKeyword (name : List Char)
  /-- Anything else, by its text in normal form. -/
  | piece
  deriving DecidableEq, Repr, Inhabited

/-- A token or a block before the end of a statement. -/
structure Mark where
  kind : Mark.Kind
  /-- The normal form. -/
  text : List Char
  /-- The characters it was read from. -/
  chars : List Char
  start : Nat
  deriving DecidableEq, Repr, Inhabited

namespace Mark

/-- The offset just past the mark. -/
def stop (m : Mark) : Nat := m.start + Text.byteSize m.chars

/-- Whether the mark is part of the statement proper. -/
def isSolid (m : Mark) : Bool :=
  match m.kind with
  | .space | .ignored => false
  | _ => true

/-- The kind of a token that neither opens a block nor ends a statement. -/
def Kind.ofToken : Token → Kind
  | .whitespace => .space
  | .comma => .comma
  | .atKeyword name => .atKeyword name
  | t => if t.isVisible then .piece else .ignored

/-- The mark of a token at offset `pos`. -/
def ofLexeme (l : Lexeme) (pos : Nat) : Mark := ⟨.ofToken l.token, l.token.render, l.chars, pos⟩

/-- The mark of a function or a pair of brackets at offset `pos`. -/
def ofBlock (o : Lexeme) (body : Forest) (closed : Bool) (pos : Nat) : Mark :=
  ⟨.piece, blockText o body, o.chars ++ body.source ++ closerChars o closed, pos⟩

end Mark

/-- The at-rule that a statement is, by its name in lower case: its first solid mark is an
at-keyword. -/
def atRule? (marks : List Mark) : Option (List Char) :=
  match marks.find? Mark.isSolid with
  | some m =>
      match m.kind with
      | .atKeyword name => some (Text.asciiLower name)
      | _ => none
  | none => none

/-- The marks between commas. -/
def splitCommas : List Mark → List (List Mark)
  | [] => [[]]
  | m :: ms =>
      if m.kind = .comma then [] :: splitCommas ms
      else
        match splitCommas ms with
        | group :: groups => (m :: group) :: groups
        | [] => [[m]]

/-- The text of the solid marks, with one space wherever whitespace separates two of them. -/
def marksText (started gap : Bool) : List Mark → List Char
  | [] => []
  | m :: ms =>
      if m.kind = .space then marksText started started ms
      else if m.isSolid then gapChars gap ++ m.text ++ marksText true false ms
      else marksText started gap ms

/-- The entry that a run of marks without commas spells, if it has a solid mark. -/
def entry? (marks : List Mark) : Option Entry :=
  match marks.filter Mark.isSolid with
  | [] => none
  | first :: rest =>
      some ⟨String.ofList (marksText false false marks),
        ⟨first.start, (rest.getLast?.getD first).stop⟩⟩

/-- The selector list that a run of marks spells. -/
def entries (marks : List Mark) : List Entry := (splitCommas marks).filterMap entry?

/-- The marks from the first solid one to the last solid one. -/
def solidRun (marks : List Mark) : List Mark :=
  ((marks.dropWhile (!·.isSolid)).reverse.dropWhile (!·.isSolid)).reverse

/-- The problem of a statement that is no at-rule, has a solid mark, and ends without a block where
only rules may stand. -/
def missingBlock (marks : List Mark) : List Problem :=
  match solidRun marks with
  | [] => []
  | first :: rest =>
      [⟨.missingBlock (Text.trim ((first :: rest).flatMap (·.chars))), first.start⟩]

/-! ## Blocks -/

/-- What stands in the body of a block. -/
inductive Context where
  /-- Rules and at-rules only: the sheet itself and the bodies of group at-rules in it. -/
  | ruleList
  /-- Declarations and possibly rules: the body of a style rule. -/
  | declarations
  deriving DecidableEq, Repr, Inhabited

/-- The at-rules whose block holds further rules. -/
def groupAtRules : List (List Char) :=
  ["media", "supports", "layer", "container", "document", "-moz-document", "scope",
    "starting-style"].map String.toList

/-- How the block of a statement is read. -/
inductive Body where
  /-- The block of a group at-rule, read in the context that it stands in. -/
  | group
  /-- A block that is passed over: that of another at-rule, one without selectors, or the value
  of a custom property. -/
  | skipped
  /-- The block of a style rule. -/
  | style (lead : Entry) (others : List Entry)
  deriving DecidableEq, Repr

/-- How the block of a statement with the given marks is read. -/
def bodyOf (marks : List Mark) : Body :=
  match atRule? marks with
  | some name => if name ∈ groupAtRules then .group else .skipped
  | none =>
      match entries marks with
      | [] => .skipped
      | lead :: others =>
          if Text.startsWith ['-', '-'] lead.text.toList then .skipped else .style lead others

/-- The problems of a statement that ends without a block. -/
def endProblems (context : Context) (marks : List Mark) : List Problem :=
  if context = .ruleList ∧ atRule? marks = none then missingBlock marks else []

/-- The outline of the statements of a forest that begins at offset `pos` in `depth` blocks. The
marks of the statement that is being read are `seen`, last one first. -/
def outlineFrom (context : Context) (depth pos : Nat) (seen : List Mark) : Forest → Outline
  | .nil => .ofProblems (endProblems context seen.reverse)
  | .token l rest =>
      let next := pos + Text.byteSize l.chars
      if l.token = .semicolon then
        .ofProblems (endProblems context seen.reverse) ++ outlineFrom context depth next [] rest
      else
        .ofProblems (l.token.problems pos) ++
          outlineFrom context depth next (.ofLexeme l pos :: seen) rest
  | .block o body closed rest =>
      let inside := pos + Text.byteSize o.chars
      let next := inside + body.size + Text.byteSize (closerChars o closed)
      if o.token = .opening .curly then
        let inner :=
          match bodyOf seen.reverse with
          | .skipped => .empty
          | .group => outlineFrom context (depth + 1) inside [] body
          | .style lead others =>
              ⟨[⟨lead, others, ⟨pos, next⟩, closed, depth⟩], []⟩ ++
                outlineFrom .declarations (depth + 1) inside [] body
        inner ++ .ofProblems (blockProblems closed pos) ++
          outlineFrom context depth next [] rest
      else
        .ofProblems (body.problems inside ++ blockProblems closed pos) ++
          outlineFrom context depth next (.ofBlock o body closed pos :: seen) rest

/-! ## Outlines of texts -/

namespace Outline

/-- The outline of a text. -/
def ofChars (cs : List Char) : Outline := outlineFrom .ruleList 0 0 [] (.ofText cs)

/-- The outline of a text. -/
def ofText (text : String) : Outline := ofChars text.toList

/-- The first problem, with its line and column in the text that was outlined. -/
def error? (o : Outline) (text : String) : Option SheetError :=
  (Problem.first? o.problems).map fun p =>
    ⟨p.cause, Text.Position.of text.toList p.offset, p.offset⟩

/-- Every entry of every selector list, rule by rule. -/
def entries (o : Outline) : List Entry := o.rules.flatMap Rule.entries

/-- The texts of all entries. -/
def declared (o : Outline) : SelectorSet := .ofList (o.entries.map (·.text))

/-- The entries whose text is in `selectors`, by position. -/
def occurrences (o : Outline) (selectors : SelectorSet) : List Entry :=
  (o.entries.filter (fun e => decide (e.text ∈ selectors))).mergeSort
    (fun a b => a.span.start ≤ b.span.start)

end Outline

/-- The selectors that a stylesheet declares, or its first problem. -/
def declared? (text : String) : Except SheetError SelectorSet :=
  let outline := Outline.ofText text
  match outline.error? text with
  | some e => .error e
  | none => .ok outline.declared

end StyleAudit.Sheet
