import StyleAudit.Sheet.Token.Render
import StyleAudit.Sheet.Token.Scan
import StyleAudit.Text.Bytes

/-! # Blocks

A stylesheet as a sequence of tokens and bracketed blocks. A closer closes the innermost open
block when it matches that block's bracket; any other closer is a token like the rest. A block that
nothing closes runs to the end of the text.

* **`Forest`** — a sequence of tokens and blocks.
* **`Forest.ofLexemes`** — the blocks of a token sequence.
* **`Forest.source`** — the characters a forest was read from.
* **`Forest.text`** — the normal form of a forest: whitespace collapsed, comments dropped. -/

namespace StyleAudit.Sheet

/-- A sequence of tokens and blocks. -/
inductive Forest where
  | nil
  | token (lexeme : Lexeme) (rest : Forest)
  /-- A block with its opening token, its contents, and whether a closer ends it. -/
  | block (opener : Lexeme) (body : Forest) (closed : Bool) (rest : Forest)
  deriving DecidableEq, Repr, Inhabited

/-- The contents of an open block from some point on, and whether a closer ends them. -/
structure Level where
  contents : Forest
  closed : Bool

/-- What is left of every open block, innermost first, and of the sheet itself: `pending`
lists the brackets of the open blocks. -/
def readLevels : (pending : List Bracket) → List Lexeme → List Level
  | pending, [] => ⟨.nil, false⟩ :: pending.map fun _ => ⟨.nil, false⟩
  | pending, l :: ls =>
      match l.token.opens? with
      | some b =>
          match readLevels (b :: pending) ls with
          | inner :: outer :: levels =>
              ⟨.block l inner.contents inner.closed outer.contents, outer.closed⟩ :: levels
          | levels => levels
      | none =>
          match pending with
          | b :: outer =>
              if l.token.closes? = some b then ⟨.nil, true⟩ :: readLevels outer ls
              else
                match readLevels pending ls with
                | level :: levels => ⟨.token l level.contents, level.closed⟩ :: levels
                | [] => []
          | [] =>
              match readLevels [] ls with
              | level :: levels => ⟨.token l level.contents, level.closed⟩ :: levels
              | [] => []

namespace Forest

/-- The blocks of a token sequence. -/
def ofLexemes (ls : List Lexeme) : Forest :=
  match readLevels [] ls with
  | level :: _ => level.contents
  | [] => .nil

/-- The blocks of a text. -/
def ofText (cs : List Char) : Forest := ofLexemes (lexemes cs)

end Forest

/-- The bracket of a block's opening token. -/
def Lexeme.bracket (l : Lexeme) : Bracket := l.token.opens?.getD .round

/-- The characters after a block's contents. -/
def closerChars (opener : Lexeme) (closed : Bool) : List Char :=
  if closed then [opener.bracket.closer] else []

namespace Forest

/-- The characters that a forest was read from. -/
def source : Forest → List Char
  | .nil => []
  | .token l rest => l.chars ++ rest.source
  | .block o body closed rest => o.chars ++ body.source ++ closerChars o closed ++ rest.source

/-- The number of bytes that a forest was read from. -/
def size : Forest → Nat
  | .nil => 0
  | .token l rest => Text.byteSize l.chars + rest.size
  | .block o body closed rest =>
      Text.byteSize o.chars + body.size + Text.byteSize (closerChars o closed) + rest.size

/-- The size of a forest is that of its source. -/
theorem byteSize_source (f : Forest) : Text.byteSize f.source = f.size := by
  induction f with
  | nil => rfl
  | token l rest ih => simp [source, size, ih]
  | block o body closed rest ihb ihr => simp [source, size, ihb, ihr, Nat.add_assoc]

end Forest

/-- Whether a token contributes to the text of a selector. -/
def Token.isVisible : Token → Bool
  | .whitespace | .comment _ | .badString | .badUrl | .closing _ => false
  | _ => true

/-- A space, if one is due. -/
def gapChars (gap : Bool) : List Char := if gap then [' '] else []

/-- The normal form of a forest. One space stands wherever whitespace separates two visible parts:
`started` says that a visible part came before, and `gap` that whitespace followed it. -/
def Forest.textFrom (started gap : Bool) : Forest → List Char
  | .nil => []
  | .token l rest =>
      if l.token = .whitespace then rest.textFrom started started
      else if l.token.isVisible then
        gapChars gap ++ l.token.render ++ rest.textFrom true false
      else rest.textFrom started gap
  | .block o body _ rest =>
      gapChars gap ++ o.token.render ++ body.textFrom false false ++ [o.bracket.closer] ++
        rest.textFrom true false

/-- The text of a block: its opening token, its contents in normal form, and its closer, whether
or not the block was closed. -/
def blockText (opener : Lexeme) (body : Forest) : List Char :=
  opener.token.render ++ body.textFrom false false ++ [opener.bracket.closer]

end StyleAudit.Sheet
