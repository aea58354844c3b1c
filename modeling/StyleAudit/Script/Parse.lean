import StyleAudit.Script.Token.Scan
import StyleAudit.Script.Tree

/-! # Parsing

A parser runs over a cursor: the current token, the characters after it, and the setting that the
enclosing constructs make. A parser that fails leaves no result; a fault that does not stop it is
recorded in the cursor, so that a reading that was only tried can be given up together with its
faults.

* **`Setting`, `Cursor`** — where a parser stands.
* **`Parse α`** — parsers.
* **`sees`, `take`, `need`** — tests and steps on the current token.
* **`ahead`, `attempt`** — trying a parser without, or only on success with, its effect.
* **`Parse.many`** — repetition, bounded by the length of what is left. -/

namespace StyleAudit.Script

/-- What the enclosing constructs allow. -/
structure Setting where
  /-- `in` is an operator. -/
  allowIn : Bool := true
  /-- `await` is an operator. -/
  async : Bool := true
  /-- `yield` is an operator. -/
  generator : Bool := false
  /-- A function body encloses this place. -/
  inFunction : Bool := false
  /-- Declarations have no implementation here. -/
  ambient : Bool := false
  /-- A decorator is being read. -/
  decorating : Bool := false
  /-- A conditional type must stand in parentheses. -/
  plainTypes : Bool := false
  deriving DecidableEq, Repr, Inhabited

/-- Where a parser stands. -/
structure Cursor where
  token : Token
  /-- The characters from the current token on. -/
  here : List Char
  /-- The characters after the current token. -/
  after : List Char
  /-- Whether a line end precedes the current token. -/
  newline : Bool
  setting : Setting
  /-- Whether elements may be written. -/
  elements : Bool
  /-- Whether no fault has been recorded. -/
  sound : Bool
  deriving Repr, Inhabited

namespace Cursor

/-- Goes on with the first token of `cs`. -/
def moveTo (c : Cursor) (cs : List Char) : Cursor :=
  match skipTrivia .gap false cs with
  | some (newline, rest) =>
      let (token, after) := scanToken rest
      { c with token := token, here := rest, after := after, newline := newline }
  | none => { c with token := .invalid, here := [], after := [], newline := false }

/-- Goes on with the next token. -/
def next (c : Cursor) : Cursor := c.moveTo c.after

/-- The characters after a first line that begins with `#!`. -/
def afterHashbang : List Char → List Char
  | '#' :: '!' :: cs => cs.dropWhile (!isLineEnd ·)
  | cs => cs

/-- The cursor at the first token of a text. -/
def start (elements : Bool) (cs : List Char) : Cursor :=
  let blank : Cursor := ⟨.done, [], [], false, {}, elements, true⟩
  blank.moveTo (afterHashbang cs)

end Cursor

/-- A parser with results in `α`. -/
abbrev Parse (α : Type) := StateT Cursor Option α

/-! ## The current token -/

/-- The current token. -/
def token : Parse Token := do return (← get).token

/-- Goes on with the next token. -/
def advance : Parse Unit := modify Cursor.next

/-- Records a fault that does not stop the parser. -/
def fault : Parse Unit := modify fun c => { c with sound := false }

/-- Records a fault if the condition holds. -/
def faultIf (b : Bool) : Parse Unit := if b then fault else pure ()

/-- Whether the current token is the word or mark `s`. -/
def sees (s : String) : Parse Bool := do return (← token).isText s

/-- Whether the current token is one of the given words and marks. -/
def seesAny (ss : List String) : Parse Bool := do
  let t ← token
  return ss.any t.isText

/-- Whether a line end precedes the current token. -/
def afterNewline : Parse Bool := do return (← get).newline

/-- Whether the current token is the word or mark `s` and stands on the line of the one before. -/
def seesInline (s : String) : Parse Bool := do
  return (← sees s) && !(← afterNewline)

/-- Passes the word or mark `s` if it is the current token; the result says whether it was. -/
def take (s : String) : Parse Bool := do
  if ← sees s then advance; return true
  else return false

/-- Passes the word or mark `s`, which must be the current token. -/
def need (s : String) : Parse Unit := do
  if ← sees s then advance else failure

/-- The setting of the current place. -/
def setting : Parse Setting := do return (← get).setting

/-- Runs `p` in a changed setting. -/
def within (change : Setting → Setting) (p : Parse α) : Parse α := do
  let outer ← setting
  modify fun c => { c with setting := change c.setting }
  let a ← p
  modify fun c => { c with setting := outer }
  return a

/-! ## Trying -/

/-- The result of a test that is run without effect; a test that fails is false. -/
def ahead (p : Parse Bool) : Parse Bool := fun c =>
  match p c with
  | some (b, _) => some (b, c)
  | none => some (false, c)

/-- The result of `p` if it succeeds; otherwise nothing has happened. -/
def attempt (p : Parse α) : Parse (Option α) := fun c =>
  match p c with
  | some (a, c') => some (some a, c')
  | none => some (none, c)

/-- Whether `p` holds at the token after the current one. -/
def nextIs (p : Parse Bool) : Parse Bool := ahead do
  advance
  p

/-! ## Repetition -/

/-- Repeats `step` until it has no result, at most `n` times. -/
def collect : Nat → Parse (Option α) → Parse (List α)
  | 0, _ => failure
  | n + 1, step => do
      match ← step with
      | none => return []
      | some a => return a :: (← collect n step)

/-- Repeats `step` until it has no result. Every repetition passes a token, so the characters that
are left bound their number. -/
def Parse.many (step : Parse (Option α)) : Parse (List α) := do
  collect ((← get).after.length + 2) step

/-- Repeats `step` on a value for as long as it has a result, at most `n` times. -/
def foldFrom : Nat → (α → Parse (Option α)) → α → Parse α
  | 0, _, _ => failure
  | n + 1, step, a => do
      match ← step a with
      | none => return a
      | some b => foldFrom n step b

/-- Repeats `step` on a value for as long as it has a result. -/
def Parse.fold (step : α → Parse (Option α)) (a : α) : Parse α := do
  foldFrom ((← get).after.length + 2) step a

/-- Items separated by commas up to `close`, which is not passed: the items, and whether a comma
follows the last of them. -/
def commaList (close : String) (item : Parse α) : Parse (List α × Bool) := do
  if ← sees close then return ([], false)
  let first ← item
  let rest ← Parse.many (do
    if ← sees close then return none
    need ","
    if ← sees close then return some none
    return some (some (← item)))
  return (first :: rest.filterMap id, rest.any Option.isNone)

/-- Items separated by commas up to `close`, which is passed. A comma may follow the last item. -/
def commaListTo (close : String) (item : Parse α) : Parse (List α) := do
  let (items, _) ← commaList close item
  need close
  return items

/-! ## Ends of statements -/

/-- A semicolon may be left out before a brace, at the end, and at the end of a line. -/
def canEndStatement : Parse Bool := do
  return (← sees ";") || (← sees closeBrace) || (← token) == .done || (← afterNewline)

/-- Passes the end of a statement. -/
def endStatement : Parse Unit := do
  if ← take ";" then return
  else if ← canEndStatement then return
  else failure

end StyleAudit.Script
