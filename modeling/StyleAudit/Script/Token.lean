/-! # Script tokens

The lexical units of a script. Words cover identifiers and keywords alike: which of them a word is
depends on where it stands.

* **`Token`** — the kinds of token.
* **`Token.isText t s`** — `t` is the word or the mark `s`, written without escapes. -/

namespace StyleAudit.Script

/-- The mark that opens a block or an object. -/
@[match_pattern] abbrev openBrace : String := "\x7b"

/-- The mark that closes a block or an object. -/
@[match_pattern] abbrev closeBrace : String := "\x7d"

/-- A lexical unit of a script. -/
inductive Token where
  /-- An identifier or a keyword; `escaped` says that an escape stands in it. -/
  | word (text : String) (escaped : Bool)
  /-- A name after `#`. -/
  | privateName (text : String)
  | number
  | string (value : String)
  /-- A part of a template: `last` says that a backtick ends it, and `sound` that its escapes are
  well formed. -/
  | template (last sound : Bool)
  | mark (text : String)
  /-- The end of the text. -/
  | done
  /-- What is no token. -/
  | invalid
  deriving DecidableEq, Repr, Inhabited

/-- Whether the token is the word or the mark `s`, written without escapes. -/
def Token.isText (t : Token) (s : String) : Bool :=
  match t with
  | .word text escaped => !escaped && text == s
  | .mark text => text == s
  | _ => false

/-- The text of a mark, or of a word without escapes. -/
def Token.text? : Token → Option String
  | .word text false => some text
  | .mark text => some text
  | _ => none

end StyleAudit.Script
