import StyleAudit.Sheet.Numeral

/-! # The text of tokens

A token is written in a normal form: strings in double quotes, numbers from their value, and names
with exactly the escapes that they need. Two spellings of one selector thus have one text.

* **`renderIdent`, `renderName`, `renderString`, `renderUrl`** — the parts of tokens.
* **`Token.render`** — the text of a token. -/

namespace StyleAudit.Sheet

/-- The escape of a character by its code point. -/
def hexEscape (c : Char) : List Char := '\\' :: Nat.toDigits 16 c.toNat ++ [' ']

/-- The control characters that cannot stand in a name or a string. -/
def isControl (c : Char) : Bool := (1 ≤ c.toNat && c.toNat ≤ 0x1f) || c.toNat == 0x7f

/-- A character of a name, escaped if it would end the name. -/
def renderNameChar (c : Char) : List Char :=
  if c.isAlphanum || c == '_' || c == '-' || 128 ≤ c.toNat then [c]
  else if c = '\x00' then ['\ufffd']
  else if isControl c then hexEscape c
  else ['\\', c]

/-- The text of a name that need not begin like an identifier. -/
def renderName (name : List Char) : List Char := name.flatMap renderNameChar

/-- A name whose first character may not be a bare digit. -/
def renderFirst : List Char → List Char
  | c :: cs => if c.isDigit then hexEscape c ++ renderName cs else renderName (c :: cs)
  | [] => []

/-- The text of an identifier. -/
def renderIdent : List Char → List Char
  | '-' :: '-' :: rest => '-' :: '-' :: renderName rest
  | ['-'] => ['\\', '-']
  | '-' :: rest => '-' :: renderFirst rest
  | name => renderFirst name

/-- A character inside double quotes. -/
def renderStringChar (c : Char) : List Char :=
  if c = '"' || c = '\\' then ['\\', c]
  else if c = '\x00' then ['\ufffd']
  else if isControl c then hexEscape c
  else [c]

/-- The text of a string, in double quotes. -/
def renderString (value : List Char) : List Char := '"' :: value.flatMap renderStringChar ++ ['"']

/-- A character of a `url(…)` without quotes. -/
def renderUrlChar (c : Char) : List Char :=
  if c.toNat ≤ 0x20 || c.toNat == 0x7f then hexEscape c
  else if c = '(' || c = ')' || c = '"' || c = '\'' || c = '\\' then ['\\', c]
  else [c]

/-- The text of a `url(…)` without quotes. -/
def renderUrl (value : List Char) : List Char :=
  ['u', 'r', 'l', '('] ++ value.flatMap renderUrlChar ++ [')']

/-- The text of a unit. A unit that would read as an exponent has its first letter escaped. -/
def renderUnit : List Char → List Char
  | c :: rest =>
      if (c == 'e' || c == 'E') && (rest.isEmpty || rest.head? == some '-') then
        ['\\', '6', '5', ' '] ++ renderName rest
      else renderIdent (c :: rest)
  | [] => []

/-- The text of a token. -/
def Token.render : Token → List Char
  | .ident name => renderIdent name
  | .atKeyword name => '@' :: renderIdent name
  | .hash name isId => '#' :: if isId then renderIdent name else renderName name
  | .string value => renderString value
  | .url value => renderUrl value
  | .delim c => [c]
  | .number n => n.render
  | .percentage n => n.renderPercent
  | .dimension n unit => n.render ++ renderUnit unit
  | .colon => [':']
  | .semicolon => [';']
  | .comma => [',']
  | .matcher c => [c, '=']
  | .commentOpen => ['<', '!', '-', '-']
  | .commentClose => ['-', '-', '>']
  | .function name => renderIdent name ++ ['(']
  | .opening b => [b.opener]
  | .closing b => [b.closer]
  | .whitespace => [' ']
  | .comment _ | .badString | .badUrl => []

end StyleAudit.Sheet
