import StyleAudit.Sheet.Token
import StyleAudit.Text.Hex

/-! # Reading tokens

Every scanner takes the characters that lie ahead and returns what it read together with the
number of characters it took, so that a token's text is a prefix of the input by construction.
Characters that an escape or a line break has already accounted for are passed over by a skip
counter, which keeps each scanner structurally recursive on its input.

* **`scanName`, `scanString`, `scanUrl`, `scanNumeral`, `scanComment`** — the scanners.
* **`Token.next c cs`** — the token that begins with `c`, and how many characters of `cs` it takes.
* **`lexemes cs`** — the tokens of a text. -/

namespace StyleAudit.Sheet

/-- The characters that end a line. -/
def isNewline (c : Char) : Bool := c == '\n' || c == '\r' || c == '\x0c'

/-- The characters of a whitespace token. -/
def isSpace (c : Char) : Bool := c == ' ' || c == '\t' || isNewline c

/-- What stands for a character that cannot be written. -/
def replacement : Char := '\ufffd'

/-- A character that begins a name by itself. -/
def isNameStart (c : Char) : Bool := c.isAlpha || c == '_' || c == '\x00' || 128 ≤ c.toNat

/-- A character that goes on with a name as it stands. -/
def isNamePart (c : Char) : Bool := c.isAlphanum || c == '_' || c == '-' || 128 ≤ c.toNat

/-- Whether a line break lies ahead. -/
def newlineAhead : List Char → Bool
  | c :: _ => isNewline c
  | [] => false

/-- The number of characters of the line break that lies ahead, if one does: `\r\n` is one. -/
def newlineSize : List Char → Nat
  | '\r' :: '\n' :: _ => 2
  | c :: _ => if isNewline c then 1 else 0
  | [] => 0

/-- Reads at most `n` hexadecimal digits: the value, continued from `acc`, and their number. -/
def scanHex : Nat → Nat → List Char → Nat × Nat
  | n + 1, acc, c :: cs =>
      match Text.hexDigit? c with
      | some d => let (v, k) := scanHex n (acc * 16 + d) cs; (v, k + 1)
      | none => (acc, 0)
  | _, acc, _ => (acc, 0)

/-- The character with the given code point; zero, surrogates and numbers past the last code point
are replaced. -/
def scalar (n : Nat) : Char :=
  if n ≠ 0 ∧ n.isValidChar then Char.ofNat n else replacement

/-- The size of the one whitespace character that may end a hexadecimal escape. -/
def escapeTail : List Char → Nat
  | ' ' :: _ | '\t' :: _ => 1
  | cs => newlineSize cs

/-- Reads what follows a backslash: the character meant, and the number of characters. -/
def scanEscape : List Char → Char × Nat
  | [] => (replacement, 0)
  | c :: cs =>
      if (Text.hexDigit? c).isSome then
        let (v, k) := scanHex 6 0 (c :: cs)
        (scalar v, k + escapeTail ((c :: cs).drop k))
      else if c = '\x00' then (replacement, 1)
      else (c, 1)

/-- Reads the rest of a name after passing over `skip` characters. -/
def scanNameFrom : (skip : Nat) → List Char → List Char × Nat
  | _, [] => ([], 0)
  | skip + 1, _ :: cs => let (v, k) := scanNameFrom skip cs; (v, k + 1)
  | 0, c :: cs =>
      if isNamePart c then let (v, k) := scanNameFrom 0 cs; (c :: v, k + 1)
      else if c = '\x00' then let (v, k) := scanNameFrom 0 cs; (replacement :: v, k + 1)
      else if c = '\\' && !newlineAhead cs then
        let (d, n) := scanEscape cs
        let (v, k) := scanNameFrom n cs
        (d :: v, k + 1)
      else ([], 0)

/-- Reads a name: its value with escapes resolved, and the number of characters. -/
def scanName (cs : List Char) : List Char × Nat := scanNameFrom 0 cs

/-- Whether an identifier begins here. A backslash after a leading hyphen always counts. -/
def identAhead : List Char → Bool
  | '-' :: c :: _ => isNameStart c || c == '-' || c == '\\'
  | '-' :: [] => false
  | '\\' :: cs => !newlineAhead cs
  | c :: _ => isNameStart c
  | [] => false

/-- Reads a string after its quote, passing over `skip` characters first: the value, or none when
a line break cuts it off, and the number of characters. The end of the text closes a string. -/
def scanStringFrom (quote : Char) : (skip : Nat) → List Char → Option (List Char) × Nat
  | _, [] => (some [], 0)
  | skip + 1, _ :: cs => let (v, k) := scanStringFrom quote skip cs; (v, k + 1)
  | 0, c :: cs =>
      if c = quote then (some [], 1)
      else if isNewline c then (none, 0)
      else if c = '\\' then
        if newlineAhead cs then
          let (v, k) := scanStringFrom quote (newlineSize cs) cs
          (v, k + 1)
        else if cs.isEmpty then (some [], 1)
        else
          let (d, n) := scanEscape cs
          let (v, k) := scanStringFrom quote n cs
          (v.map (d :: ·), k + 1)
      else
        let (v, k) := scanStringFrom quote 0 cs
        (v.map ((if c = '\x00' then replacement else c) :: ·), k + 1)

/-- The characters that may not stand in a `url(…)` without quotes. -/
def isUrlBreaker (c : Char) : Bool :=
  let n := c.toNat
  (1 ≤ n && n ≤ 8) || n == 0x0b || (0x0e ≤ n && n ≤ 0x1f) || n == 0x7f ||
    c == '"' || c == '\'' || c == '('

/-- The number of characters of the rest of a malformed `url(…)`: through the next `)` that no
backslash escapes. -/
def badUrlSize : (escaped : Bool) → List Char → Nat
  | _, [] => 0
  | true, _ :: cs => badUrlSize false cs + 1
  | false, c :: cs => if c = ')' then 1 else badUrlSize (c == '\\') cs + 1

/-- What follows the value of a `url(…)`: whitespace and the `)`. The result says whether nothing
else stood there. -/
def scanUrlEnd : List Char → Bool × Nat
  | [] => (true, 0)
  | c :: cs =>
      if c = ')' then (true, 1)
      else if isSpace c then let (ok, k) := scanUrlEnd cs; (ok, k + 1)
      else (false, badUrlSize false cs + 1)

/-- Reads the value of a `url(…)` and its end, passing over `skip` characters first. -/
def scanUrlFrom : (skip : Nat) → List Char → Option (List Char) × Nat
  | _, [] => (some [], 0)
  | skip + 1, _ :: cs => let (v, k) := scanUrlFrom skip cs; (v, k + 1)
  | 0, c :: cs =>
      if c = ')' then (some [], 1)
      else if isSpace c then
        let (ok, k) := scanUrlEnd cs
        (if ok then some [] else none, k + 1)
      else if isUrlBreaker c then (none, badUrlSize false cs + 1)
      else if c = '\\' then
        if newlineAhead cs then (none, badUrlSize false cs + 1)
        else
          let (d, n) := scanEscape cs
          let (v, k) := scanUrlFrom n cs
          (v.map (d :: ·), k + 1)
      else
        let (v, k) := scanUrlFrom 0 cs
        (v.map ((if c = '\x00' then replacement else c) :: ·), k + 1)

/-- Reads what follows `url(`. A quote makes it a function instead, which the first result says by
`none`. -/
def scanUrl : List Char → Option Token × Nat
  | [] => (some (.url []), 0)
  | c :: cs =>
      if isSpace c then let (t, k) := scanUrl cs; (t, k + 1)
      else if c = '"' || c = '\'' then (none, 0)
      else
        match scanUrlFrom 0 (c :: cs) with
        | (some v, k) => (some (.url v), k)
        | (none, k) => (some .badUrl, k)

/-- The leading decimal digits of a text. -/
def digits (cs : List Char) : List Nat := (cs.takeWhile Char.isDigit).map (·.toNat - 48)

/-- Whether a decimal digit lies ahead. -/
def digitAhead : List Char → Bool
  | c :: _ => c.isDigit
  | [] => false

/-- Whether an unsigned number begins here. -/
def unsignedAhead : List Char → Bool
  | '.' :: cs => digitAhead cs
  | cs => digitAhead cs

/-- Reads an exponent with at least one digit. -/
def scanExponent : List Char → Option (Bool × List Nat) × Nat
  | e :: cs =>
      if e = 'e' || e = 'E' then
        match cs with
        | '+' :: ds => if digitAhead ds then (some (false, digits ds), (digits ds).length + 2) else (none, 0)
        | '-' :: ds => if digitAhead ds then (some (true, digits ds), (digits ds).length + 2) else (none, 0)
        | ds => if digitAhead ds then (some (false, digits ds), (digits ds).length + 1) else (none, 0)
      else (none, 0)
  | [] => (none, 0)

/-- Reads a fraction with at least one digit. -/
def scanFraction : List Char → List Nat × Nat
  | '.' :: cs => if digitAhead cs then (digits cs, (digits cs).length + 1) else ([], 0)
  | _ => ([], 0)

/-- Reads a number and the unit or percent sign right after it. -/
def scanNumeric (cs : List Char) : Token × Nat :=
  let sign := cs.head?.filter (fun c => c == '+' || c == '-')
  let signSize := sign.elim 0 fun _ => 1
  let afterSign := cs.drop signSize
  let whole := digits afterSign
  let afterWhole := afterSign.drop whole.length
  let (fraction, fractionSize) := scanFraction afterWhole
  let afterFraction := afterWhole.drop fractionSize
  let (exponent, exponentSize) := scanExponent afterFraction
  let rest := afterFraction.drop exponentSize
  let value : Numeral := ⟨sign, whole, fraction, exponent⟩
  let size := signSize + whole.length + fractionSize + exponentSize
  match rest with
  | '%' :: _ => (.percentage value, size + 1)
  | _ =>
      if identAhead rest then
        let (unit, k) := scanName rest
        (.dimension value unit, size + k)
      else (.number value, size)

/-- Reads a name and what it leads to: an identifier, a function, or a `url(…)`. -/
def scanIdentLike (cs : List Char) : Token × Nat :=
  let (name, k) := scanName cs
  match cs.drop k with
  | '(' :: rest =>
      if name.map Char.toLower = ['u', 'r', 'l'] then
        match scanUrl rest with
        | (some t, n) => (t, k + 1 + n)
        | (none, _) => (.function name, k + 1)
      else (.function name, k + 1)
  | _ => (.ident name, k)

/-- The number of characters of a comment after its `/*`, and whether `*/` ends it. -/
def scanComment : List Char → Bool × Nat
  | '*' :: '/' :: _ => (true, 2)
  | _ :: cs => let (ok, k) := scanComment cs; (ok, k + 1)
  | [] => (false, 0)

/-- A token of one character, or the two-character token that a following `=` makes of it. -/
def matcherOr (c : Char) : List Char → Token × Nat
  | '=' :: _ => (.matcher c, 1)
  | _ => (.delim c, 0)

/-- Less one for the character that a scanner over `c :: cs` has counted already. -/
def afterFirst (scanned : Token × Nat) : Token × Nat := (scanned.1, scanned.2 - 1)

/-- The token that begins with `c` when `cs` follows, and how many characters of `cs` it takes. -/
def Token.next (c : Char) (cs : List Char) : Token × Nat :=
  if isSpace c then (.whitespace, (cs.takeWhile isSpace).length)
  else if c.isDigit then afterFirst (scanNumeric (c :: cs))
  else
    match c with
    | '"' | '\'' =>
        match scanStringFrom c 0 cs with
        | (some v, k) => (.string v, k)
        | (none, k) => (.badString, k)
    | '#' =>
        if identAhead cs then let (v, k) := scanName cs; (.hash v true, k)
        else if digitAhead cs || cs.head? == some '-' then
          let (v, k) := scanName cs
          (.hash v false, k)
        else (.delim '#', 0)
    | '$' | '*' | '^' | '|' | '~' => matcherOr c cs
    | '(' => (.opening .round, 0)
    | ')' => (.closing .round, 0)
    | '[' => (.opening .square, 0)
    | ']' => (.closing .square, 0)
    | '{' => (.opening .curly, 0)
    | '}' => (.closing .curly, 0)
    | ',' => (.comma, 0)
    | ':' => (.colon, 0)
    | ';' => (.semicolon, 0)
    | '+' => if unsignedAhead cs then afterFirst (scanNumeric (c :: cs)) else (.delim '+', 0)
    | '-' =>
        if unsignedAhead cs then afterFirst (scanNumeric (c :: cs))
        else
          match cs with
          | '-' :: '>' :: _ => (.commentClose, 2)
          | _ =>
              if identAhead (c :: cs) then afterFirst (scanIdentLike (c :: cs))
              else (.delim '-', 0)
    | '.' => if digitAhead cs then afterFirst (scanNumeric (c :: cs)) else (.delim '.', 0)
    | '/' =>
        match cs with
        | '*' :: rest => let (ok, k) := scanComment rest; (.comment ok, k + 1)
        | _ => (.delim '/', 0)
    | '<' =>
        match cs with
        | '!' :: '-' :: '-' :: _ => (.commentOpen, 3)
        | _ => (.delim '<', 0)
    | '@' =>
        if identAhead cs then let (v, k) := scanName cs; (.atKeyword v, k)
        else (.delim '@', 0)
    | _ =>
        if identAhead (c :: cs) then afterFirst (scanIdentLike (c :: cs)) else (.delim c, 0)

/-- The tokens of a text whose first `skip` characters belong to a token already read. -/
def lexemesFrom : (skip : Nat) → List Char → List Lexeme
  | _, [] => []
  | skip + 1, _ :: cs => lexemesFrom skip cs
  | 0, c :: cs =>
      let (token, n) := Token.next c cs
      ⟨token, c :: cs.take n⟩ :: lexemesFrom n cs

/-- The tokens of a text, in order. -/
def lexemes (cs : List Char) : List Lexeme := lexemesFrom 0 cs

/-- Skipping characters is dropping them. -/
theorem lexemesFrom_eq_drop (skip : Nat) (cs : List Char) :
    lexemesFrom skip cs = lexemes (cs.drop skip) := by
  induction cs generalizing skip with
  | nil => cases skip <;> simp [lexemes, lexemesFrom]
  | cons c cs ih =>
      cases skip with
      | zero => rfl
      | succ n => simp [lexemesFrom, ih]

/-- Cons reading of `lexemes`: the first token, then the tokens of what it leaves. -/
theorem lexemes_cons (c : Char) (cs : List Char) :
    lexemes (c :: cs) =
      ⟨(Token.next c cs).1, c :: cs.take (Token.next c cs).2⟩ ::
        lexemes (cs.drop (Token.next c cs).2) := by
  rw [← lexemesFrom_eq_drop]
  rfl

end StyleAudit.Sheet
