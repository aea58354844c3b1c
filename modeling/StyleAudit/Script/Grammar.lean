import StyleAudit.Script.Grammar.Expression
import StyleAudit.Script.Grammar.Statement

/-! # The grammar

The productions of all goals, tied together. A production asks for further goals at the same place
or later in the text; each place is asked for few goals, so a multiple of the text's length bounds
how deep the goals nest.

* **`produce`** — the production of a goal.
* **`grammar n`** — parsers whose goals nest at most `n` deep.
* **`parse?`** — the syntax tree of a script, none if it has a fault. -/

namespace StyleAudit.Script

/-- The production of a goal, in terms of parsers for the goals it asks for. -/
def produce (call : Grammar) : Grammar
  | .statement single => parseStatement call single
  | .block => parseBlock call
  | .assignment returnTypes => parseAssignment call returnTypes
  | .binary level => parseBinary call level
  | .unary => parseUnary call
  | .leftSide => parseLeftSide call
  | .callee => parseCallee call
  | .binding => bindingPattern call
  | .type => parseType call
  | .typeOperand => parseTypeOperand call
  | .element => parseElement call

/-- Parsers whose goals nest at most `n` deep. -/
def grammar : Nat → Grammar
  | 0 => fun _ => failure
  | n + 1 => produce (grammar n)

/-- A deeper grammar is a production over a less deep one. -/
theorem grammar_succ (n : Nat) : grammar (n + 1) = produce (grammar n) := rfl

/-- The depth that suffices for a text. -/
def depthFor (cs : List Char) : Nat := 16 * (cs.length + 2)

/-- The statements of a whole script. -/
def script (call : Grammar) : Parse Tree := do
  let items ← Parse.many (do
    if (← token) == .done then return none else return some (← call (.statement false)))
  return .plain items

/-- The syntax tree of a script. With `elements`, elements may be written in expressions. -/
def parse? (elements : Bool) (cs : List Char) : Option Tree :=
  match script (grammar (depthFor cs)) (.start elements cs) with
  | some (tree, c) => if c.sound && tree.isSettled then some tree else none
  | none => none

end StyleAudit.Script
