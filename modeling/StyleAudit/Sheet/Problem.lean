import StyleAudit.Sheet.Forest
import StyleAudit.Text.Lines

/-! # Problems

A stylesheet is outlined whatever it holds; what is wrong with it is recorded beside the outline.

* **`Problem`** — a cause and the byte offset that it concerns.
* **`Problem.first?`** — the problem that a stylesheet is refused for: the one with the least
  offset, and the earliest recorded of those.
* **`SheetError`** — a problem with its line and column, and its wording. -/

namespace StyleAudit.Sheet

/-- What can be wrong with a stylesheet. -/
inductive Cause where
  /-- A bracket that nothing closes. -/
  | unclosedBlock
  | unterminatedComment
  /-- A string that a line break cuts off. -/
  | unterminatedString
  /-- A malformed `url(…)`. -/
  | badUrl
  /-- A closing bracket with nothing to close. -/
  | unexpectedClose (b : Bracket)
  /-- A selector list that no block follows. -/
  | missingBlock (text : List Char)
  deriving DecidableEq, Repr, Inhabited

/-- The wording of a cause. -/
def Cause.message : Cause → String
  | .unclosedBlock => "unclosed block"
  | .unterminatedComment => "unterminated comment"
  | .unterminatedString => "unterminated string"
  | .badUrl => "malformed url()"
  | .unexpectedClose b => "unexpected '" ++ String.singleton b.closer ++ "'"
  | .missingBlock text => "selector `" ++ String.ofList text ++ "` has no block"

/-- A cause and the byte offset that it concerns. -/
structure Problem where
  cause : Cause
  offset : Nat
  deriving DecidableEq, Repr, Inhabited

/-- The problem with the least offset, and the first of those. -/
def Problem.first? : List Problem → Option Problem
  | [] => none
  | p :: ps =>
      match first? ps with
      | some q => if q.offset < p.offset then some q else some p
      | none => some p

/-- The problem that a token is in itself. -/
def Token.cause? : Token → Option Cause
  | .comment false => some .unterminatedComment
  | .badString => some .unterminatedString
  | .badUrl => some .badUrl
  | .closing b => some (.unexpectedClose b)
  | _ => none

/-- The problem that a token at offset `pos` is in itself. -/
def Token.problems (t : Token) (pos : Nat) : List Problem :=
  match t.cause? with
  | some cause => [⟨cause, pos⟩]
  | none => []

/-- The problem that a block opened at offset `pos` is in itself. -/
def blockProblems (closed : Bool) (pos : Nat) : List Problem :=
  if closed then [] else [⟨.unclosedBlock, pos⟩]

/-- Every problem in the contents of a function or of a pair of brackets that begin at `pos`. -/
def Forest.problems (pos : Nat) : Forest → List Problem
  | .nil => []
  | .token l rest => l.token.problems pos ++ rest.problems (pos + Text.byteSize l.chars)
  | .block o body closed rest =>
      let inside := pos + Text.byteSize o.chars
      body.problems inside ++ blockProblems closed pos ++
        rest.problems (inside + body.size + Text.byteSize (closerChars o closed))

/-- A problem with its line and column. -/
structure SheetError where
  cause : Cause
  position : Text.Position
  offset : Nat
  deriving DecidableEq, Repr

/-- The wording of a stylesheet error. -/
def SheetError.message (e : SheetError) : String :=
  e.cause.message ++ " at line " ++ toString e.position.line ++ ", column " ++
    toString e.position.column

end StyleAudit.Sheet
