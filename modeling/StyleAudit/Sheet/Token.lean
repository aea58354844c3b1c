/-! # Stylesheet tokens

The lexical units of a stylesheet. A token keeps what a selector's text is rebuilt from: names
and strings with their escapes resolved, and numbers as the digits that were written.

* **`Token`** — the kinds of token.
* **`Lexeme`** — a token together with the characters it was read from. -/

namespace StyleAudit.Sheet

/-- The three kinds of bracket. -/
inductive Bracket where
  | round
  | square
  | curly
  deriving DecidableEq, Repr, Inhabited

/-- The character that closes a bracket. -/
def Bracket.closer : Bracket → Char
  | .round => ')'
  | .square => ']'
  | .curly => '}'

/-- The character that opens a bracket. -/
def Bracket.opener : Bracket → Char
  | .round => '('
  | .square => '['
  | .curly => '{'

/-- A number as it was written: an optional sign, the digits before and after the point, and the
exponent. The digits are decimal digits; no fraction digits means that there was no point. -/
structure Numeral where
  sign : Option Char
  whole : List Nat
  fraction : List Nat
  /-- Whether the exponent is negative, and its digits. -/
  exponent : Option (Bool × List Nat)
  deriving DecidableEq, Repr, Inhabited

/-- A number without point and exponent is an integer. -/
def Numeral.isInteger (n : Numeral) : Bool := n.fraction.isEmpty && n.exponent.isNone

/-- A lexical unit of a stylesheet. -/
inductive Token where
  | ident (name : List Char)
  | atKeyword (name : List Char)
  /-- A `#` and a name; the name of an `isId` hash could stand alone as an identifier. -/
  | hash (name : List Char) (isId : Bool)
  | string (value : List Char)
  /-- A string that a line break cuts off. -/
  | badString
  /-- A `url(…)` without quotes. -/
  | url (value : List Char)
  /-- A `url(…)` without quotes that holds a character it may not hold. -/
  | badUrl
  | delim (c : Char)
  | number (value : Numeral)
  | percentage (value : Numeral)
  | dimension (value : Numeral) (unit : List Char)
  | whitespace
  | comment (terminated : Bool)
  | colon
  | semicolon
  | comma
  /-- One of `~=`, `|=`, `^=`, `$=` and `*=`, by its first character. -/
  | matcher (c : Char)
  /-- The mark `<!--`. -/
  | commentOpen
  /-- The mark `-->`. -/
  | commentClose
  /-- A name with its `(`. -/
  | function (name : List Char)
  | opening (b : Bracket)
  | closing (b : Bracket)
  deriving DecidableEq, Repr, Inhabited

/-- The bracket that a token opens. -/
def Token.opens? : Token → Option Bracket
  | .function _ => some .round
  | .opening b => some b
  | _ => none

/-- The bracket that a token closes. -/
def Token.closes? : Token → Option Bracket
  | .closing b => some b
  | _ => none

/-- A token and the characters it was read from. -/
structure Lexeme where
  token : Token
  chars : List Char
  deriving DecidableEq, Repr, Inhabited

end StyleAudit.Sheet
